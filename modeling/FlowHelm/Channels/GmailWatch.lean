/-
  FlowHelm.Channels.GmailWatch — the historyId of GmailWatchManager, under updates and renewals.

  A renewal captures the id it finds, awaits the Gmail API and writes the captured id back; any
  number of them may be under way, and updates come in between. The watch's expiration and its
  timers are not in here: nothing that is said depends on them.

  - `updateHistoryId_atLeast`: an update alone never lowers the id.
  - `cursor_grows`: the id never decreases just as long as no update to a greater id than a
    renewal captured comes before it returns.
  - `a_renewal_undoes_an_update`: an update during the await is lost.
-/
import FlowHelm.Lib.JsParseInt
import FlowHelm.Lib.Runs

namespace FlowHelm.Channels

open Js Runs

namespace GmailWatch

/-- `none` where `BigInt` throws. -/
def updateHistoryId (held historyId : JsString) : Option JsString :=
  if held = [] then some historyId
  else (bigInt historyId).bind fun new => (bigInt held).map fun old => if old < new then historyId else held

/-- `currentHistoryId || response.historyId`. -/
def renewedId (captured response : JsString) : JsString := if captured = [] then response else captured

/-! ## Runs -/

/-- A renewal that awaits the API. -/
structure Renewal where
  captured : JsString
  /-- The ids that came since: those of updates, and those of responses where none was captured. -/
  since : List JsString
  deriving DecidableEq

structure St where
  historyId : JsString
  /-- In the order of their starts, `none` once one is settled. -/
  renewals : List (Option Renewal)
  /-- The ids held before, the newest first. -/
  past : List JsString
  deriving DecidableEq

inductive Ev where
  | updateHistoryId (historyId : JsString)
  | renewWatch
  | renewed (i : Nat) (response : JsString)
  | renewalFailed (i : Nat)

def St.hold (s : St) (historyId : JsString) : St := { s with historyId := historyId, past := s.historyId :: s.past }

def St.comes (s : St) (historyId : JsString) : St :=
  { s with renewals := s.renewals.map (Option.map fun r => { r with since := historyId :: r.since }) }

def St.settle (s : St) (i : Nat) : St := { s with renewals := s.renewals.set i none }

def step (s : St) : Ev → Option St
  | .updateHistoryId historyId => some ((s.comes historyId).hold ((updateHistoryId s.historyId historyId).getD s.historyId))
  | .renewWatch => some { s with renewals := s.renewals ++ [some ⟨s.historyId, []⟩] }
  | .renewed i response => (s.renewals[i]?.join).map fun r =>
    (if r.captured = [] then (s.settle i).comes response else s.settle i).hold (renewedId r.captured response)
  | .renewalFailed i => (s.renewals[i]?.join).map fun _ => s.settle i

/-- The manager with the id its watch was created with. -/
def watch (created : JsString) : System St Ev := ⟨⟨created, [], []⟩, step⟩

/-- The number of `older`, if it has one, is kept or grows. -/
def AtLeast (newer older : JsString) : Prop := ∀ a ∈ bigInt older, ∃ b ∈ bigInt newer, a ≤ b

instance (newer older : JsString) : Decidable (AtLeast newer older) :=
  inferInstanceAs (Decidable (∀ _ ∈ _, ∃ _ ∈ _, _))

def Sound (s : St) : Prop := (s.historyId :: s.past).Pairwise AtLeast

/-- Both are numbers, the first the greater one. -/
def Greater (newer older : JsString) : Prop := ∃ a ∈ bigInt newer, ∃ b ∈ bigInt older, b < a

/-- No id that came since a renewal captured its own is greater than it. Where it captured none,
    its response is a number that is not negative, and no id that came is greater than that. And
    an update of the empty id is to a number that is not negative. -/
def Unpassed (s : St) : Ev → Prop
  | .updateHistoryId historyId => s.historyId = [] → AtLeast historyId []
  | .renewed i response => ∀ r ∈ s.renewals[i]?.join,
    if r.captured = [] then AtLeast response [] ∧ ∀ new ∈ r.since, ¬Greater new response
    else ∀ new ∈ r.since, ¬Greater new r.captured
  | _ => True

/-! ## Order -/

theorem AtLeast.refl (historyId : JsString) : AtLeast historyId historyId := fun a ha => ⟨a, ha, Int.le_refl a⟩

theorem AtLeast.trans {x y z : JsString} (hxy : AtLeast x y) (hyz : AtLeast y z) : AtLeast x z := by
  intro a ha
  obtain ⟨b, hb, hab⟩ := hyz a ha
  obtain ⟨c, hc, hbc⟩ := hxy b hb
  exact ⟨c, hc, by omega⟩

/-- An update alone never lowers an id. -/
theorem updateHistoryId_atLeast {held historyId new : JsString} (hheld : held ≠ [])
    (h : updateHistoryId held historyId = some new) : AtLeast new held := by
  unfold updateHistoryId at h
  rw [if_neg hheld] at h
  obtain ⟨b, hb, h⟩ := Option.bind_eq_some_iff.mp h
  obtain ⟨a, ha, h⟩ := Option.map_eq_some_iff.mp h
  by_cases hlt : a < b
  · rw [if_pos hlt] at h
    subst h
    intro a' ha'
    simp only [ha, Option.mem_def, Option.some.injEq] at ha'
    exact ⟨b, hb, by omega⟩
  · rw [if_neg hlt] at h
    exact h ▸ .refl held

/-- Holding one more id keeps the order just if it is not less than the one held. -/
theorem hold_sound {s : St} (h : Sound s) (historyId : JsString) :
    Sound (s.hold historyId) ↔ AtLeast historyId s.historyId := by
  have holder := (List.pairwise_cons.mp h).1
  constructor
  · intro hmore
    exact (List.pairwise_cons.mp hmore).1 s.historyId (List.mem_cons_self ..)
  · intro hnew
    refine List.pairwise_cons.mpr ⟨fun old hold => ?_, h⟩
    rcases List.mem_cons.mp hold with rfl | hold
    · exact hnew
    · exact hnew.trans (holder old hold)

/-! ## What has come since -/

/-- What is known of a renewal under way where the id held has the number `n`: it is the greatest
    of the one captured and those that came since. -/
structure Tracks (n : Int) (r : Renewal) : Prop where
  captured : ∃ c ∈ bigInt r.captured, c ≤ n
  since : ∀ new ∈ r.since, ∀ m ∈ bigInt new, m ≤ n
  attained : n ∈ bigInt r.captured ∨ ∃ new ∈ r.since, n ∈ bigInt new

/-- An id that is no number is never left: `BigInt` throws at every update. -/
def Stuck (s : St) : Prop := bigInt s.historyId = none ∧ ∀ r, some r ∈ s.renewals → r.captured = s.historyId

def Tracked (s : St) : Prop := ∃ n ∈ bigInt s.historyId, ∀ r, some r ∈ s.renewals → Tracks n r

structure Inv (s : St) : Prop where
  sound : Sound s
  renewals : Stuck s ∨ Tracked s

/-- An id is kept or grows just if it does over the one captured and over all that came since. -/
theorem Tracks.atLeast_iff {n : Int} {r : Renewal} (h : Tracks n r) {held : JsString} (hn : n ∈ bigInt held) (x : JsString) :
    AtLeast x held ↔ AtLeast x r.captured ∧ ∀ new ∈ r.since, ¬Greater new x := by
  constructor
  · intro hx
    obtain ⟨b, hb, hnb⟩ := hx n hn
    refine ⟨fun c hc => ?_, ?_⟩
    · obtain ⟨c', hc', hle⟩ := h.captured
      obtain rfl := Option.mem_unique hc hc'
      exact ⟨b, hb, by omega⟩
    · rintro new hnew ⟨m, hm, b', hb', hlt⟩
      obtain rfl := Option.mem_unique hb hb'
      have := h.since new hnew m hm
      omega
  · rintro ⟨hcaptured, hsince⟩ n' hn'
    obtain rfl := Option.mem_unique hn hn'
    obtain ⟨c, hc, -⟩ := h.captured
    obtain ⟨b, hb, hcb⟩ := hcaptured c hc
    refine ⟨b, hb, ?_⟩
    rcases h.attained with hattained | ⟨new, hnew, hattained⟩
    · obtain rfl := Option.mem_unique hc hattained
      exact hcb
    · by_contra hlt
      exact hsince new hnew ⟨n, hattained, b, hb, by omega⟩

/-- One more id comes, and the number held is the greater of the two. -/
theorem Tracks.comes {n n' : Int} {r : Renewal} (h : Tracks n r) {new : JsString} (hn : n ≤ n') (hnew : ∀ m ∈ bigInt new, m ≤ n')
    (hattained : n' = n ∨ n' ∈ bigInt new) : Tracks n' { r with since := new :: r.since } := by
  obtain ⟨c, hc, hle⟩ := h.captured
  refine ⟨⟨c, hc, by omega⟩, List.forall_mem_cons.mpr ⟨hnew, fun x hx m hm => Int.le_trans (h.since x hx m hm) hn⟩, ?_⟩
  rcases hattained with rfl | hattained
  · exact h.attained.imp_right fun ⟨x, hx, hm⟩ => ⟨x, .tail _ hx, hm⟩
  · exact .inr ⟨new, .head _, hattained⟩

theorem mem_comes {s : St} {new : JsString} {r : Renewal} (h : some r ∈ (s.comes new).renewals) :
    ∃ r₀, some r₀ ∈ s.renewals ∧ r = { r₀ with since := new :: r₀.since } := by
  obtain ⟨o, ho, heq⟩ := List.mem_map.mp h
  obtain ⟨r₀, rfl, rfl⟩ := Option.map_eq_some_iff.mp heq
  exact ⟨r₀, ho, rfl⟩

theorem mem_settle {s : St} {i : Nat} {r : Renewal} (h : some r ∈ (s.settle i).renewals) : some r ∈ s.renewals :=
  (List.mem_or_eq_of_mem_set h).resolve_right (Option.some_ne_none r)

theorem mem_renewals {s : St} {i : Nat} {r : Renewal} (h : s.renewals[i]?.join = some r) : some r ∈ s.renewals :=
  List.mem_of_getElem? (Option.join_eq_some_iff.mp h)

theorem ne_nil_of_stuck {held : JsString} (h : bigInt held = none) : held ≠ [] := by
  rintro rfl
  exact absurd h (by decide)

theorem updateHistoryId_stuck {held : JsString} (h : bigInt held = none) (historyId : JsString) :
    updateHistoryId held historyId = none := by
  rw [updateHistoryId, if_neg (ne_nil_of_stuck h), h]
  exact Option.bind_fun_none _

/-- The number an update leaves: the greater of the two. -/
theorem updateHistoryId_number {held historyId : JsString} {n : Int} (hn : n ∈ bigInt held)
    (h : held = [] → AtLeast historyId []) :
    ∃ n' ∈ bigInt ((updateHistoryId held historyId).getD held), n ≤ n' ∧ (∀ m ∈ bigInt historyId, m ≤ n') ∧
      (n' = n ∨ n' ∈ bigInt historyId) := by
  unfold updateHistoryId
  by_cases hheld : held = []
  · rw [if_pos hheld]
    obtain ⟨m, hm, hle⟩ := h hheld n (hheld ▸ hn)
    exact ⟨m, hm, hle, fun m' hm' => Int.le_of_eq (Option.mem_unique hm' hm), .inr hm⟩
  · rw [if_neg hheld, hn]
    cases hnew : bigInt historyId with
    | none => exact ⟨n, hn, Int.le_refl n, by rintro m ⟨⟩, Or.inl rfl⟩
    | some m =>
      simp only [Option.bind_some, Option.map_some, Option.getD_some]
      split
      · exact ⟨m, hnew, by omega, fun m' hm' => Int.le_of_eq (Option.some.inj hm').symm, Or.inr rfl⟩
      · rename_i hle
        exact ⟨n, hn, Int.le_refl n, fun m' hm' => by obtain rfl := Option.some.inj hm'; omega, Or.inl rfl⟩

/-! ## Steps and runs -/

/-- A renewal keeps the order just if it meets the condition. -/
theorem renewed_iff {s : St} (h : Inv s) {i : Nat} {r : Renewal} (hr : s.renewals[i]?.join = some r) (response : JsString) :
    AtLeast (renewedId r.captured response) s.historyId ↔ Unpassed s (.renewed i response) := by
  have hunpassed : Unpassed s (.renewed i response) ↔
      if r.captured = [] then AtLeast response [] ∧ ∀ new ∈ r.since, ¬Greater new response
      else ∀ new ∈ r.since, ¬Greater new r.captured := by simp [Unpassed, hr]
  rw [hunpassed, renewedId]
  rcases h.renewals with ⟨hnone, hcaptured⟩ | ⟨n, hn, htracks⟩
  · have hheld := hcaptured r (mem_renewals hr)
    have hne : r.captured ≠ [] := hheld ▸ ne_nil_of_stuck hnone
    rw [if_neg hne, if_neg hne, hheld]
    refine iff_of_true (.refl _) ?_
    rintro new - ⟨m, -, b, hb, -⟩
    rw [hnone] at hb
    cases hb
  · have hiff := (htracks r (mem_renewals hr)).atLeast_iff hn
    by_cases hempty : r.captured = []
    · rw [if_pos hempty, if_pos hempty, hiff response, hempty]
    · rw [if_neg hempty, if_neg hempty, hiff r.captured]
      exact and_iff_right (.refl _)

/-- A step keeps the order just if it meets the condition. -/
theorem step_sound {s t : St} {e : Ev} (h : Inv s) (hs : step s e = some t) : Sound t ↔ Unpassed s e := by
  cases e with
  | updateHistoryId historyId =>
    obtain rfl := Option.some.inj hs
    rw [hold_sound (s := s.comes historyId) h.sound]
    by_cases hheld : s.historyId = []
    · simp [St.comes, updateHistoryId, Unpassed, hheld]
    · refine iff_of_true ?_ fun hempty => absurd hempty hheld
      cases hnew : updateHistoryId s.historyId historyId with
      | none => exact .refl _
      | some new => exact updateHistoryId_atLeast hheld hnew
  | renewWatch =>
    obtain rfl := Option.some.inj hs
    exact iff_of_true h.sound trivial
  | renewed i response =>
    obtain ⟨r, hr, rfl⟩ := Option.map_eq_some_iff.mp hs
    rw [← renewed_iff h hr response]
    split
    · exact hold_sound (s := (s.settle i).comes response) h.sound _
    · exact hold_sound (s := s.settle i) h.sound _
  | renewalFailed i =>
    obtain ⟨r, -, rfl⟩ := Option.map_eq_some_iff.mp hs
    exact iff_of_true h.sound trivial

theorem step_inv {s t : St} {e : Ev} (h : Inv s) (hs : step s e = some t) (hc : Unpassed s e) : Inv t := by
  refine ⟨(step_sound h hs).mpr hc, ?_⟩
  cases e with
  | updateHistoryId historyId =>
    obtain rfl := Option.some.inj hs
    refine h.renewals.imp (fun ⟨hnone, hcaptured⟩ => ?_) fun ⟨n, hn, htracks⟩ => ?_
    · rw [updateHistoryId_stuck hnone]
      refine ⟨hnone, fun r hr => ?_⟩
      obtain ⟨r₀, hr₀, rfl⟩ := mem_comes hr
      exact hcaptured r₀ hr₀
    · obtain ⟨n', hn', hle, hnew, hattained⟩ := updateHistoryId_number hn hc
      refine ⟨n', hn', fun r hr => ?_⟩
      obtain ⟨r₀, hr₀, rfl⟩ := mem_comes hr
      exact (htracks r₀ hr₀).comes hle hnew hattained
  | renewWatch =>
    obtain rfl := Option.some.inj hs
    refine h.renewals.imp (fun ⟨hnone, hcaptured⟩ => ⟨hnone, ?_⟩) fun ⟨n, hn, htracks⟩ => ⟨n, hn, ?_⟩
    · intro r hr
      rcases List.mem_append.mp hr with hr | hr
      · exact hcaptured r hr
      · obtain rfl := Option.some.inj (List.mem_singleton.mp hr)
        rfl
    · intro r hr
      rcases List.mem_append.mp hr with hr | hr
      · exact htracks r hr
      · obtain rfl := Option.some.inj (List.mem_singleton.mp hr)
        exact ⟨⟨n, hn, Int.le_refl n⟩, List.forall_mem_nil _, .inl hn⟩
  | renewed i response =>
    obtain ⟨r, hr, rfl⟩ := Option.map_eq_some_iff.mp hs
    have hnew := (renewed_iff h hr response).mpr hc
    rcases h.renewals with ⟨hnone, hcaptured⟩ | ⟨n, hn, htracks⟩
    · have hheld := hcaptured r (mem_renewals hr)
      have hne : r.captured ≠ [] := hheld ▸ ne_nil_of_stuck hnone
      rw [if_neg hne, renewedId, if_neg hne, hheld]
      exact .inl ⟨hnone, fun r hr => hcaptured r (mem_settle hr)⟩
    · obtain ⟨n', hn', hle⟩ := hnew n hn
      refine .inr ⟨n', hn', fun r' hr' => ?_⟩
      by_cases hempty : r.captured = []
      · rw [if_pos hempty] at hr'
        rw [renewedId, if_pos hempty] at hn'
        obtain ⟨r₀, hr₀, rfl⟩ := mem_comes hr'
        exact (htracks r₀ (mem_settle hr₀)).comes hle (fun m hm => Int.le_of_eq (Option.mem_unique hm hn')) (.inr hn')
      · rw [if_neg hempty] at hr'
        rw [renewedId, if_neg hempty] at hn'
        -- what it captured was no more than the id held, so that the number is as before
        obtain ⟨c, hc, hcn⟩ := (htracks r (mem_renewals hr)).captured
        obtain rfl := Option.mem_unique hc hn'
        obtain rfl : n = c := by omega
        exact htracks r' (mem_settle hr')
  | renewalFailed i =>
    obtain ⟨r, -, rfl⟩ := Option.map_eq_some_iff.mp hs
    exact h.renewals.imp (fun ⟨hnone, hcaptured⟩ => ⟨hnone, fun r hr => hcaptured r (mem_settle hr)⟩)
      fun ⟨n, hn, htracks⟩ => ⟨n, hn, fun r hr => htracks r (mem_settle hr)⟩

/-- The id never decreases in a run whose renewals are not passed, and does at any other step. -/
theorem cursor_grows (created : JsString) :
    (∀ s, Reach (watch created) Unpassed s → Sound s) ∧
      ∀ s e t, Reach (watch created) Unpassed s → step s e = some t → ¬Unpassed s e → ¬Sound t := by
  have hinit : Inv (watch created).init := by
    refine ⟨List.pairwise_singleton .., ?_⟩
    cases hnumber : bigInt created with
    | none => exact .inl ⟨hnumber, fun r hr => by cases hr⟩
    | some n => exact .inr ⟨n, hnumber, fun r hr => by cases hr⟩
  have hinv : ∀ s, Reach (watch created) Unpassed s → Inv s := by
    intro s hs
    exact hs.inv hinit fun s e t _ h hc hstep => step_inv h hstep hc
  refine ⟨fun s hs => (hinv s hs).sound, fun s e t hs hstep hpassed ht => ?_⟩
  exact hpassed ((step_sound (hinv s hs) hstep).mp ht)

theorem a_renewal_undoes_an_update : ∃ s, Reach (watch (ofString "100")) Free s ∧ ¬Sound s := by
  have hrun : ∃ s, Reach (watch (ofString "100")) Free s ∧
      decide (s = ⟨ofString "100", [none], [ofString "200", ofString "100"]⟩) = true :=
    reach_any [.renewWatch, .updateHistoryId (ofString "200"), .renewed 0 (ofString "150")] (meets_free ..) (by decide)
  obtain ⟨s, hs, hends⟩ := hrun
  refine ⟨s, hs, fun h => ?_⟩
  rw [of_decide_eq_true hends] at h
  have hlost := (List.pairwise_cons.mp h).1 (ofString "200") (List.mem_cons_self ..)
  exact absurd hlost (by decide)

end GmailWatch

end FlowHelm.Channels
