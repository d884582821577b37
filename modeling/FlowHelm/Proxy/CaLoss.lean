/-
  FlowHelm.Proxy.CaLoss — a process that crashes between the two files of the proxy's CA.

  Whoever finds a key file and no certificate generates a CA and may not write it; whoever finds
  both, or neither, gets a CA.

  - `lost_step`: nobody writes what is lost, and nobody loads it.
  - `lost_for_ever`: while nobody is at the files, the CA is lost for ever or the next process
    gets one.
-/
import FlowHelm.Proxy.CaFiles

namespace FlowHelm.Proxy.CaFiles

open Runs

variable {ι G K C : Type} [DecidableEq ι]

/-! ## A CA that is lost -/

/-- It has a file open, or opens the second. -/
def Stage.Busy : Stage K C → Prop
  | .writesKey _ | .opensCert | .writesCert _ | .changesMode => True
  | _ => False

/-- There is a key file, and no certificate to go with it. -/
def Lost (forge : Forge G K C) (s : St ι K C) : Prop := s.keyFile ≠ none ∧ s.certFile.bind forge.certificateFromPem = none

theorem parse_cert {forge : Forge G K C} {keyPem : Bytes} {certFile : Option Bytes} {ca : CACertificate K C}
    (h : parse forge keyPem certFile = some ca) : certFile.bind forge.certificateFromPem ≠ none := by
  obtain ⟨certPem, rfl, h⟩ := Option.bind_eq_some_iff.mp h
  obtain ⟨key, hk, h⟩ := Option.bind_eq_some_iff.mp h
  obtain ⟨cert, hc, h⟩ := Option.bind_eq_some_iff.mp h
  rw [Option.bind_some, hc]
  nofun

variable {forge : Forge G K C} {call : ι → Call} {drawn : ι → G} {s t : St ι K C} {i : ι}

/-- Nobody is at the files, as far as moving on is concerned. -/
theorem idle_move {st : Stage K C} (hidle : ∀ j, ¬(s.stage j).Busy) (hst : ¬st.Busy) : ∀ j, ¬((s.move i st).stage j).Busy := by
  intro j
  by_cases hj : j = i
  · subst hj
    rwa [move_self]
  · rw [move_other hj]
    exact hidle j

theorem had_move {st : Stage K C} {j : ι} {ca : CACertificate K C} (h : (s.move i st).stage j = .returned ca)
    (hst : st ≠ .returned ca) : s.stage j = .returned ca := by
  by_cases hj : j = i
  · subst hj
    rw [move_self] at h
    exact absurd h hst
  · rwa [move_other hj] at h

/-- Nobody writes what is lost, and nobody loads it. -/
theorem lost_step (hlost : Lost forge s) (hidle : ∀ j, ¬(s.stage j).Busy) (h : Change forge call drawn false s i t) :
    (Lost forge t ∧ ∀ j, ¬(t.stage j).Busy) ∧ ∀ j ca, t.stage j = .returned ca → s.stage j = .returned ca := by
  have hi := hidle i
  cases h with
  | begins hst => exact ⟨⟨hlost, idle_move hidle not_false⟩, fun j ca h => had_move h nofun⟩
  | reads keyPem hst hkey => exact ⟨⟨hlost, idle_move hidle not_false⟩, fun j ca h => had_move h nofun⟩
  | unloads hst =>
    refine ⟨⟨hlost, idle_move hidle ?_⟩, fun j ca h => had_move h ?_⟩
    · cases call i <;> exact not_false
    · cases call i <;> nofun
  | loads keyPem ca hst hca => exact absurd hlost.2 (parse_cert hca)
  | makes hst hfree =>
    rcases hfree with hnone | hroot
    · exact absurd hnone hlost.1
    · cases hroot
  | putsKey n more hst | putsCert n more hst | opens hst | ends hst =>
    rw [hst] at hi
    exact absurd trivial hi
  | stops st hst hstop =>
    rcases hstop with rfl | rfl
    · exact ⟨⟨hlost, idle_move hidle not_false⟩, fun j ca h => had_move h nofun⟩
    · exact ⟨⟨hlost, idle_move hidle not_false⟩, fun j ca h => had_move h nofun⟩

theorem lost_path (hlost : Lost forge s) (hidle : ∀ j, ¬(s.stage j).Busy) (h : Path (system forge call drawn false) s t) :
    ∀ j ca, t.stage j = .returned ca → s.stage j = .returned ca := by
  obtain ⟨es, hes⟩ := h
  induction es generalizing s with
  | nil =>
    obtain rfl := Option.some.inj hes
    exact fun _ _ h => h
  | cons e es ih =>
    simp only [exec] at hes
    cases hstep : (system forge call drawn false).step s e with
    | none =>
      rw [hstep] at hes
      cases hes
    | some u =>
      rw [hstep] at hes
      obtain ⟨⟨hlostu, hidleu⟩, hback⟩ := lost_step hlost hidle (step_cases forge call drawn false hstep)
      exact fun j ca hj => hback j ca (ih hlostu hidleu hes j ca hj)

/-- What process `i` comes to when nobody else does anything. -/
def Gets (forge : Forge G K C) (call : ι → Call) (drawn : ι → G) (s : St ι K C) (i : ι) : Prop :=
  ∃ es ca t, (∀ e ∈ es, e.process = i) ∧ exec (system forge call drawn false) s es = some t ∧ t.stage i = .returned ca

theorem Gets.cons {e : Ev ι} (he : e.process = i) (hstep : step forge call drawn false s e = some t)
    (h : Gets forge call drawn t i) :
    Gets forge call drawn s i := by
  obtain ⟨es, ca, u, hes, hexec, hu⟩ := h
  refine ⟨e :: es, ca, u, List.forall_mem_cons.mpr ⟨he, hes⟩, ?_, hu⟩
  simp only [exec, show (system forge call drawn false).step s e = some t from hstep, hexec]

theorem Gets.returned {ca : CACertificate K C} (h : s.stage i = .returned ca) : Gets forge call drawn s i :=
  ⟨[], ca, s, nofun, rfl, h⟩

/-- What is whole is loaded. -/
theorem loads_alone {keyPem : Bytes} {ca : CACertificate K C} (hi : s.stage i = .idle) (hkey : s.keyFile = some keyPem)
    (hca : parse forge keyPem s.certFile = some ca) : Gets forge call drawn s i := by
  refine .cons (e := .work i) (t := s.move i .readsKey) rfl (by simp [step, work, hi]) ?_
  refine .cons (e := .work i) (t := (s.move i .readsKey).move i (.readsCert keyPem)) rfl (by simp [step, work, St.move, hkey]) ?_
  refine .cons (e := .work i) (t := ((s.move i .readsKey).move i (.readsCert keyPem)).move i (.returned ca)) rfl ?_
    (.returned move_self)
  simp [step, work, St.move, hca]

/-- Where nothing was begun, a process makes both files. -/
theorem makes_alone (hs : s.keyFile = none) (hi : s.stage i = .idle) (hcall : call i = .ensureCA) :
    Gets forge call drawn s i := by
  refine .cons (e := .work i) (t := s.move i .readsKey) rfl (by simp [step, work, hi]) ?_
  generalize hu : s.move i .readsKey = u
  have hkey : u.keyFile = none := by rw [← hu]; exact hs
  have hst : u.stage i = .readsKey := by rw [← hu]; exact move_self
  clear hu
  refine .cons (e := .work i) (t := u.move i .opensKey) rfl (by simp [step, work, hst, hkey, hcall, Call.unloaded]) ?_
  refine .cons (e := .work i) (t := { (u.move i .opensKey).move i (.writesKey 0) with keyFile := some [] }) rfl
    (by simp [step, work, St.move, hkey]) ?_
  generalize hv : ({ (u.move i .opensKey).move i (.writesKey 0) with keyFile := some [] } : St ι K C) = v
  have hst : v.stage i = .writesKey 0 := by rw [← hv]; exact move_self
  clear hv
  -- one put for each text
  refine .cons (e := .put i (forge.privateKeyToPem (drawn i)).length)
    (t := { v.move i .opensCert with
      keyFile := written (forge.privateKeyToPem (drawn i)) 0 (forge.privateKeyToPem (drawn i)).length v.keyFile })
    rfl ?_ ?_
  · simp [step, put, hst]
  generalize hw : ({ v.move i .opensCert with keyFile := _ } : St ι K C) = w
  have hst : w.stage i = .opensCert := by rw [← hw]; exact move_self
  clear hw
  refine .cons (e := .work i) (t := { w.move i (.writesCert 0) with certFile := some [] }) rfl (by simp [step, work, hst]) ?_
  generalize hx : ({ w.move i (.writesCert 0) with certFile := some [] } : St ι K C) = x
  have hst : x.stage i = .writesCert 0 := by rw [← hx]; exact move_self
  clear hx
  refine .cons (e := .put i (forge.certificateToPem (drawn i)).length)
    (t := { x.move i .changesMode with
      certFile := written (forge.certificateToPem (drawn i)) 0 (forge.certificateToPem (drawn i)).length x.certFile })
    rfl ?_ ?_
  · simp [step, put, hst]
  generalize hy : ({ x.move i .changesMode with certFile := _ } : St ι K C) = y
  have hst : y.stage i = .changesMode := by rw [← hy]; exact move_self
  refine .cons (e := .work i) (t := y.move i (.returned (generateCA forge drawn i))) rfl (by simp [step, work, hst])
    (.returned move_self)

/-- While nobody is at the files, a CA is lost for ever, or the next process gets one. -/
theorem lost_for_ever {forge : Forge G K C} (hlawful : forge.Lawful) (call : ι → Call) (drawn : ι → G) :
    ∀ s, Reach (system forge call drawn false) Free s → (∀ j, ¬(s.stage j).Busy) →
      (Lost forge s →
          ∀ t, Path (system forge call drawn false) s t → ∀ j ca, t.stage j = .returned ca → s.stage j = .returned ca) ∧
        (¬Lost forge s → ∀ i, s.stage i = .idle → call i = .ensureCA → Gets forge call drawn s i) := by
  intro s hs hidle
  refine ⟨fun hlost t ht => lost_path hlost hidle ht, fun hlost i hi hcall => ?_⟩
  rcases inv_reach hlawful hs with h | ⟨w, h⟩
  · exact makes_alone h.keyFile hi hcall
  · obtain ⟨⟨p, hkey, -⟩, -⟩ := writes_parts h.writer
    have hcert : s.certFile.bind forge.certificateFromPem ≠ none := fun hnone => hlost ⟨by rw [hkey]; nofun, hnone⟩
    -- the writer has come to the certificate, so the key is whole
    have hwhole : p = forge.privateKeyToPem (drawn w) := by
      have hwriter := h.writer
      have hfree := hidle w
      cases hst : s.stage w with
      | returned ca =>
        rw [hst] at hwriter
        exact Option.some.inj (hkey.symm.trans hwriter.1)
      | threw | gone =>
        rw [hst] at hwriter
        obtain ⟨p', hp', -, hnone | ⟨rfl, -⟩⟩ := hwriter
        · rw [hnone] at hcert
          exact absurd rfl hcert
        · exact Option.some.inj (hkey.symm.trans hp')
      | idle | readsKey | readsCert _ | opensKey =>
        rw [hst] at hwriter
        cases hwriter
      | writesKey _ | opensCert | writesCert _ | changesMode =>
        rw [hst] at hfree
        exact absurd trivial hfree
    obtain ⟨cert, hc⟩ := Option.ne_none_iff_exists'.mp hcert
    obtain ⟨certPem, hcertFile, hparse⟩ := Option.bind_eq_some_iff.mp hc
    have hca : parse forge p s.certFile = some ⟨forge.key (drawn w), cert, p, certPem⟩ := by
      simp [parse, hcertFile, hwhole, hlawful.wholeKey, hparse]
    exact loads_alone hi hkey hca

instance : ∀ st : Stage (Fin 2) (Fin 2), Decidable st.Busy
  | .writesKey _ | .opensCert | .writesCert _ | .changesMode => isTrue trivial
  | .idle | .readsKey | .readsCert _ | .opensKey | .returned _ | .threw | .gone => isFalse not_false

/-- The first crashes behind the key, and the second never gets a CA. -/
theorem a_crash_behind_the_key : ∃ s, Reach (system twoCAs (fun _ : Fin 2 => .ensureCA) id false) Free s ∧ s.stage 1 = .idle ∧
    ∀ t, Path (system twoCAs (fun _ : Fin 2 => .ensureCA) id false) s t → ∀ ca, t.stage 1 ≠ .returned ca := by
  have hrun : ∃ s, Reach (system twoCAs (fun _ : Fin 2 => .ensureCA) id false) Free s ∧
      decide ((∀ j, ¬(s.stage j).Busy) ∧ s.keyFile ≠ none ∧ s.certFile.bind twoCAs.certificateFromPem = none ∧
        s.stage 1 = .idle) = true :=
    reach_any (C := Free) [.work 0, .work 0, .work 0, .put 0 99, .crash 0] (meets_free ..) (by decide +kernel)
  obtain ⟨s, hs, hlost⟩ := hrun
  obtain ⟨hidle, hkey, hcert, hi⟩ := of_decide_eq_true hlost
  refine ⟨s, hs, hi, fun t ht ca hca => ?_⟩
  have hhad := (lost_for_ever twoCAs_lawful (fun _ => .ensureCA) id s hs hidle).1 ⟨hkey, hcert⟩ t ht 1 ca hca
  rw [hi] at hhad
  cases hhad

end FlowHelm.Proxy.CaFiles
