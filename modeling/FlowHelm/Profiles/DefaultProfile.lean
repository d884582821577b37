/-
  FlowHelm.Profiles.DefaultProfile — one default profile and at most `maxProfiles` of them,
  while `createProfile`, `cloneProfile`, `setDefaultProfile` and `deleteProfile` run beside
  each other.

  The programs are those of Profiles.Manager, each call on a connection of its own
  (Lib.Connections) to the rows of `agent_profiles`. The other tables only answer: a
  statement on them may find anything and may be refused, and it changes no profile.
  `profiles_effect` says that this is what the statements do to the full tables.

  - `stays_healthy`: both bounds hold in every state of a run that inserts or publishes a
    profile only below the limit, deletes only a profile that is not the default, and
    whose `setDefaultProfile` finds its row.
  - `deleted_while_made_default`: without the condition no profile is left the default.
-/
import FlowHelm.Lib.Connections
import FlowHelm.Lib.History
import FlowHelm.Profiles.Deletion

namespace FlowHelm.Profiles

open Memory (Profile)
open Script Prog Runs

/-! ## The rows of agent_profiles -/

inductive Write where
  | insert (profile : Profile)
  | unset (ids : List Nat) (now : Nat)
  | set (ids : List Nat) (now : Nat)
  | delete (ids : List Nat)

namespace Write

def apply (ps : List Profile) : Write → List Profile
  | insert profile => profile :: ps
  | unset ids now => ps.map fun p => if p.id ∈ ids then { p with isDefault := false, updatedAt := now } else p
  | set ids now => ps.map fun p => if p.id ∈ ids then { p with isDefault := true, updatedAt := now } else p
  | delete ids => ps.filter fun p => p.id ∉ ids

def rows : Write → List Nat
  | insert profile => [profile.id]
  | unset ids _ => ids
  | set ids _ => ids
  | delete ids => ids

def isInsert : Write → Bool
  | insert _ => true
  | _ => false

end Write

def idsOf (ps : List Profile) : List Nat := ps.map (·.id)

def defaults (ps : List Profile) : List Profile := ps.filter (·.isDefault)

/-- The rows a statement writes when it sees `ps`. -/
def writes : (o : Op) → List Profile → Ans o → List Write
  | .insertProfile .., _, profile => [.insert profile]
  | .unsetDefault now, ps, _ => [.unset (idsOf (defaults ps)) now]
  | .setDefault profileId now, ps, _ => [.set (idsOf (ps.filter (·.id == profileId))) now]
  | .deleteProfileRow profileId, ps, _ => [.delete (idsOf (ps.filter (·.id == profileId)))]
  | _, _, _ => []

def profileAnswers : (o : Op) → List Profile → Ans o → Bool
  | .getProfile profileId, ps, a => a == ps.find? (·.id == profileId)
  | .countProfiles, ps, a => a == ps.length
  | .insertProfile name description isDefault now, _, a => a == ⟨a.id, name, description, isDefault, now, now⟩
  | _, _, _ => true

/-- The keys of `agent_profiles`, `uq_one_default_profile` one of them. -/
def profileKeys (ps : List Profile) : Bool :=
  decide ((idsOf ps).Nodup ∧ (ps.map (·.name)).Nodup ∧ (defaults ps).length ≤ 1)

def profileStore : RowStore Op Ans (List Profile) Write Nat where
  answers := profileAnswers
  writes := writes
  apply := Write.apply
  rows := Write.rows
  valid := profileKeys

theorem mem_idsOf {ps : List Profile} {i : Nat} : i ∈ idsOf ps ↔ ∃ p ∈ ps, p.id = i := by
  simp [idsOf]

theorem id_selected {ps : List Profile} (h : (idsOf ps).Nodup) {sel : Profile → Bool} {p : Profile} (hp : p ∈ ps) :
    p.id ∈ idsOf (ps.filter sel) ↔ sel p = true := by
  rw [mem_idsOf]
  constructor
  · intro hq
    obtain ⟨q, hq, hid⟩ := hq
    obtain ⟨hqin, hsel⟩ := List.mem_filter.mp hq
    rw [← List.inj_on_of_nodup_map h hqin hp hid]
    exact hsel
  · intro hsel
    exact ⟨p, List.mem_filter.mpr ⟨hp, hsel⟩, rfl⟩

/-- What a statement on the full tables answers about the profiles and does to them. -/
theorem profiles_effect {o : Op} {s t : Db} {a : Ans o} (h : service.exec o s a = some t) :
    profileAnswers o s.profiles a = true ∧ (writes o s.profiles a).foldl Write.apply s.profiles = t.profiles ∧
      profileKeys t.profiles = true := by
  obtain ⟨hans, heff⟩ := exec_spec h
  have hkeys : (idsOf s.profiles).Nodup := s.valid.profileKey
  have hset : ∀ profileId, ∀ p ∈ s.profiles, p.id ∈ idsOf (s.profiles.filter (·.id == profileId)) ↔ p.id = profileId := by
    intro profileId p hp
    rw [id_selected hkeys hp, beq_iff_eq]
  refine ⟨?_, ?_, decide_eq_true ⟨t.valid.profileKey, t.valid.profileName, t.valid.oneDefault⟩⟩
  · cases o with
    | getProfile profileId => exact beq_iff_eq.mpr hans
    | countProfiles => exact beq_iff_eq.mpr hans
    | insertProfile name description isDefault now => exact beq_iff_eq.mpr hans
    | _ => rfl
  · rw [heff]
    cases o with
    | unsetDefault now =>
      refine List.map_congr_left fun p hp => ?_
      simp only [defaults, id_selected hkeys hp]
    | setDefault profileId now =>
      refine List.map_congr_left fun p hp => ?_
      simp only [hset profileId p hp]
    | deleteProfileRow profileId =>
      refine List.filter_congr fun p hp => ?_
      simp only [hset profileId p hp]
      by_cases hid : p.id = profileId
      · simp [hid]
      · simp [hid]
    | cloneSemantic oldId newProfileId now => cases a <;> rfl
    | cloneMeta oldId newProfileId now => cases a <;> rfl
    | _ => rfl

/-! ## The calls -/

/-- A call of one of the four. -/
inductive Request where
  | create (name : String) (description : Option String)
  | clone (sourceId : Nat) (newName : String) (newDescription : Option String)
  | setDefault (profileId : Nat)
  | delete (profileId : Nat)
  deriving DecidableEq

/-- Any number of calls; each has its connection. -/
abbrev Client := Nat × Request

abbrev Clients := Shared Client (List Profile) Write

def session (maxProfiles : Nat) : Request → Session Unit
  | .create name description => (createProfile maxProfiles name description).onTx.bind fun _ => .ret ()
  | .clone sourceId newName newDescription => (cloneProfile maxProfiles sourceId newName newDescription).bind fun _ => .ret ()
  | .setDefault profileId => setDefaultProfile profileId
  | .delete profileId => (deleteProfile profileId).onTx

/-- The calls over the profiles `ps`; a connection can break at any time. -/
def clients (maxProfiles : Nat) (ps : List Profile) :
    Machine (Client × TxOp Op) (fun o => TxAns Ans o.2) Clients Client Client where
  svc := Service.each (connService profileStore)
  init := ⟨ps, []⟩
  program j := (session maxProfiles j.2).via j
  env := hangUp

structure Healthy (maxProfiles : Nat) (ps : List Profile) : Prop where
  oneDefault : (defaults ps).length = 1
  bound : ps.length ≤ maxProfiles

/-- What the checks of the four are to ensure, where the statement they guard runs. -/
def Guarded (maxProfiles : Nat) (s : Clients) (j : Client) : TxOp Op → Prop
  | .on (.insertProfile ..) => s.conn j = .idle → s.committed.length < maxProfiles
  | .on (.deleteProfileRow profileId) => ∀ p ∈ s.committed, p.id = profileId → p.isDefault = false
  | .on (.setDefault profileId _) => profileId ∈ idsOf s.committed
  | .commit => ∀ held, s.conn j = .active held → s.committed.length + (held.filter Write.isInsert).length ≤ maxProfiles
  | _ => True

/-- The runs all of whose executed statements are guarded. -/
def Guard (maxProfiles : Nat) : Cond (Client × TxOp Op) (fun o => TxAns Ans o.2) Clients Client Client where
  start _ := True
  did s d := ∀ x ∈ d.done, Guarded maxProfiles s x.1.1 x.1.2
  env _ _ := True

/-! ## Steps -/

/-- What every call keeps: the two bounds, and the row that an open transaction makes the
    default. -/
structure Inv (maxProfiles : Nat) (s : Clients) : Prop where
  healthy : Healthy maxProfiles s.committed
  present : ∀ j held, s.conn j = .active held → ∀ ids now, Write.set ids now ∈ held → ∀ i ∈ ids, i ∈ idsOf s.committed

def Others (j : Client) (s t : Clients) : Prop := ∀ i, i ≠ j → t.conn i = s.conn i

theorem others_set (j : Client) (s : Clients) (x : Conn Write) : Others j s (s.set j x) :=
  fun _ hi => Shared.conn_set_ne s hi x

section Steps

variable {maxProfiles : Nat} {s t : Clients} {j : Client}

/-- A statement that is not one of the two UPDATEs. -/
def Plain : Op → Prop
  | .unsetDefault _ => False
  | .setDefault .. => False
  | _ => True

theorem writes_plain {o : Op} (ps : List Profile) (a : Ans o) (ho : Plain o) :
    writes o ps a = [] ∨ (∃ name description isDefault now, o = .insertProfile name description isDefault now ∧
        ∃ profile, writes o ps a = [.insert profile]) ∨
      ∃ profileId, o = .deleteProfileRow profileId ∧ writes o ps a = [.delete (idsOf (ps.filter (·.id == profileId)))] := by
  cases o with
  | unsetDefault now => exact ho.elim
  | setDefault profileId now => exact ho.elim
  | insertProfile name description isDefault now => exact Or.inr (Or.inl ⟨_, _, _, _, rfl, a, rfl⟩)
  | deleteProfileRow profileId => exact Or.inr (Or.inr ⟨profileId, rfl, rfl⟩)
  | _ => exact Or.inl rfl

theorem defaults_insert (p : Profile) (ps : List Profile) : (defaults ps).length ≤ (defaults (p :: ps)).length :=
  (List.Sublist.filter _ (List.sublist_cons_self p ps)).length_le

theorem keys_oneDefault {ps : List Profile} (h : profileKeys ps = true) : (defaults ps).length ≤ 1 :=
  (of_decide_eq_true h).2.2

theorem healthy_insert {p : Profile} {ps : List Profile} (h : Healthy maxProfiles ps) (hroom : ps.length < maxProfiles)
    (hkeys : profileKeys (p :: ps) = true) : Healthy maxProfiles (p :: ps) := by
  have hmore := defaults_insert p ps
  have hone := h.oneDefault
  have hkey := keys_oneDefault hkeys
  exact ⟨by omega, hroom⟩

theorem healthy_delete {ids : List Nat} {ps : List Profile} (h : Healthy maxProfiles ps)
    (hkeep : ∀ p ∈ ps, p.id ∈ ids → p.isDefault = false) : Healthy maxProfiles (Write.apply ps (.delete ids)) := by
  have hsame : defaults (Write.apply ps (.delete ids)) = defaults ps := by
    show (ps.filter fun p => p.id ∉ ids).filter (·.isDefault) = ps.filter (·.isDefault)
    rw [List.filter_filter]
    refine List.filter_congr fun p hp => ?_
    by_cases hid : p.id ∈ ids
    · simp [hkeep p hp hid]
    · simp [hid]
  refine ⟨hsame ▸ h.oneDefault, ?_⟩
  exact (List.length_filter_le _ _).trans h.bound

/-- The rows that open transactions make the default are still there after a statement of
    another connection. -/
theorem present_plain {ws : List Write} (h : Inv maxProfiles s) (hidle : s.conn j = .idle) (hfree : profileStore.free s j ws)
    (hkeep : ∀ i ∈ idsOf s.committed, (∀ w ∈ ws, i ∉ w.rows) → i ∈ idsOf (ws.foldl Write.apply s.committed)) :
    ∀ i held, s.conn i = .active held → ∀ ids now, Write.set ids now ∈ held → ∀ id ∈ ids,
      id ∈ idsOf (ws.foldl Write.apply s.committed) := by
  intro i held hconn ids now hset id hid
  have hne : i ≠ j := by
    intro hij
    rw [hij, hidle] at hconn
    cases hconn
  refine hkeep id (h.present i held hconn ids now hset id hid) ?_
  intro w hw
  exact profileStore.free_row hfree hne hconn hset hw hid

theorem keeps_active {held ws : List Write} (h : Inv maxProfiles s) (hconn : s.conn j = .active held)
    (hws : ∀ ids now, Write.set ids now ∈ ws → ∀ i ∈ ids, i ∈ idsOf s.committed) :
    Others j s (s.set j (.active (held ++ ws))) ∧ Inv maxProfiles (s.set j (.active (held ++ ws))) := by
  refine ⟨others_set j s _, h.healthy, ?_⟩
  intro i held' hconn' ids now hset
  by_cases hij : i = j
  · subst hij
    rw [Shared.conn_set] at hconn'
    cases hconn'
    rcases List.mem_append.mp hset with hold | hnew
    · exact h.present i held hconn ids now hold
    · exact hws ids now hnew
  · rw [Shared.conn_set_ne s hij] at hconn'
    exact h.present i held' hconn' ids now hset

theorem keeps_plain {o : Op} {a : Ans o} (ho : Plain o) (h : Inv maxProfiles s) (hguard : Guarded maxProfiles s j (.on o))
    (hx : (connService profileStore j).exec (.on o) s a = some t) : Others j s t ∧ Inv maxProfiles t := by
  obtain ⟨-, hfree, ⟨hidle, hkeys, rfl⟩ | ⟨held, hconn, rfl⟩⟩ := conn_on hx
  · have hview : profileStore.view s j = s.committed := by
      unfold RowStore.view
      rw [hidle]
    rw [hview] at hfree
    refine ⟨fun i _ => rfl, ?_⟩
    change profileKeys ((writes o s.committed a).foldl Write.apply s.committed) = true at hkeys
    change profileStore.free s j (writes o s.committed a) = true at hfree
    show Inv maxProfiles { s with committed := (writes o s.committed a).foldl Write.apply s.committed }
    rcases writes_plain s.committed a ho with hw | ⟨name, description, isDefault, now, rfl, p, hw⟩ |
      ⟨profileId, rfl, hw⟩
    · rw [hw]
      exact h
    · rw [hw] at hkeys hfree ⊢
      refine ⟨healthy_insert h.healthy (hguard hidle) hkeys, fun i held hconn => ?_⟩
      refine present_plain h hidle hfree ?_ i held hconn
      intro i hi _
      exact List.mem_cons_of_mem _ hi
    · rw [hw] at hfree ⊢
      refine ⟨healthy_delete h.healthy ?_, fun i held hconn => present_plain h hidle hfree ?_ i held hconn⟩
      · intro p hp hid
        obtain ⟨q, hq, hqid⟩ := mem_idsOf.mp hid
        obtain ⟨-, hsel⟩ := List.mem_filter.mp hq
        exact hguard p hp (hqid ▸ beq_iff_eq.mp hsel)
      · intro i hi hnone
        obtain ⟨p, hp, rfl⟩ := mem_idsOf.mp hi
        exact mem_idsOf.mpr ⟨p, List.mem_filter.mpr ⟨hp, by simpa [Write.rows] using hnone _ (.head _)⟩, rfl⟩
  · refine keeps_active h hconn ?_
    intro ids now hset
    change Write.set ids now ∈ writes o (profileStore.view s j) a at hset
    rcases writes_plain (profileStore.view s j) a ho with hw | ⟨_, _, _, _, rfl, p, hw⟩ | ⟨_, rfl, hw⟩
    · simp [hw] at hset
    · simp [hw] at hset
    · simp [hw] at hset

/-- A connection gives up its transaction, or opens one. -/
theorem keeps_set {x : Conn Write} (hx : x = .idle ∨ x = .active [] ∨ x = .broken) (h : Inv maxProfiles s) :
    Inv maxProfiles (s.set j x) := by
  refine ⟨h.healthy, ?_⟩
  intro i held hconn ids now hset
  by_cases hij : i = j
  · subst hij
    rw [Shared.conn_set] at hconn
    rcases hx with rfl | rfl | rfl
    · cases hconn
    · cases hconn
      cases hset
    · cases hconn
  · rw [Shared.conn_set_ne s hij] at hconn
    exact h.present i held hconn ids now hset

/-- What a COMMIT can publish: new profiles, or a change of the default. -/
inductive Publishes : List Write → Prop
  | clone {held : List Write} : (∀ w ∈ held, w.isInsert) → Publishes held
  | setDefault {old new : List Nat} {now : Nat} : new ≠ [] → Publishes [.unset old now, .set new now]

theorem inserts_grow {held : List Write} (hall : ∀ w ∈ held, w.isInsert) (ps : List Profile) :
    ∃ new : List Profile, held.foldl Write.apply ps = new ++ ps ∧ new.length = held.length := by
  induction held generalizing ps with
  | nil => exact ⟨[], rfl, rfl⟩
  | cons w held ih =>
    cases w with
    | insert p =>
      obtain ⟨new, hnew, hlen⟩ := ih (fun w hw => hall w (.tail _ hw)) (p :: ps)
      refine ⟨new ++ [p], ?_, by simp [hlen]⟩
      show held.foldl Write.apply (p :: ps) = _
      simp [hnew]
    | _ => exact absurd (hall _ (.head _)) Bool.false_ne_true

theorem idsOf_unset (ids : List Nat) (now : Nat) (ps : List Profile) :
    idsOf (Write.apply ps (.unset ids now)) = idsOf ps := by
  simp only [idsOf, Write.apply, List.map_map]
  refine List.map_congr_left fun p _ => ?_
  simp only [Function.comp_apply]
  split <;> rfl

theorem idsOf_set (ids : List Nat) (now : Nat) (ps : List Profile) : idsOf (Write.apply ps (.set ids now)) = idsOf ps := by
  simp only [idsOf, Write.apply, List.map_map]
  refine List.map_congr_left fun p _ => ?_
  simp only [Function.comp_apply]
  split <;> rfl

theorem default_set {ids : List Nat} {now i : Nat} {ps : List Profile} (hi : i ∈ ids) (hps : i ∈ idsOf ps) :
    1 ≤ (defaults (Write.apply ps (.set ids now))).length := by
  obtain ⟨p, hp, rfl⟩ := mem_idsOf.mp hps
  apply List.length_pos_iff_exists_mem.mpr
  refine ⟨{ p with isDefault := true, updatedAt := now }, List.mem_filter.mpr ⟨List.mem_map.mpr ⟨p, hp, ?_⟩, rfl⟩⟩
  rw [if_pos hi]

theorem publishes_healthy {held : List Write} {ps : List Profile} (hp : Publishes held) (h : Healthy maxProfiles ps)
    (hpresent : ∀ ids now, Write.set ids now ∈ held → ∀ i ∈ ids, i ∈ idsOf ps)
    (hroom : ps.length + (held.filter Write.isInsert).length ≤ maxProfiles)
    (hkeys : profileKeys (held.foldl Write.apply ps) = true) : Healthy maxProfiles (held.foldl Write.apply ps) := by
  have hkey := keys_oneDefault hkeys
  cases hp with
  | clone hall =>
    obtain ⟨new, hnew, hlen⟩ := inserts_grow hall ps
    rw [List.filter_eq_self.mpr hall] at hroom
    rw [hnew] at hkey ⊢
    have hmore : (defaults ps).length ≤ (defaults (new ++ ps)).length :=
      (List.Sublist.filter _ (List.sublist_append_right new ps)).length_le
    have hone := h.oneDefault
    refine ⟨by omega, ?_⟩
    rw [List.length_append]
    omega
  | @setDefault old new now hnew =>
    obtain ⟨i, hi⟩ := List.exists_mem_of_ne_nil new hnew
    have hin : i ∈ idsOf (Write.apply ps (.unset old now)) := by
      rw [idsOf_unset]
      exact hpresent new now (by simp) i hi
    have hone : 1 ≤ (defaults (List.foldl Write.apply ps [.unset old now, .set new now])).length := default_set hi hin
    refine ⟨by omega, ?_⟩
    simpa [Write.apply] using h.bound

theorem publishes_ids {held : List Write} {ps : List Profile} (hp : Publishes held) {i : Nat} (hi : i ∈ idsOf ps) :
    i ∈ idsOf (held.foldl Write.apply ps) := by
  cases hp with
  | clone hall =>
    obtain ⟨new, hnew, -⟩ := inserts_grow hall ps
    rw [hnew]
    obtain ⟨p, hp, hid⟩ := mem_idsOf.mp hi
    exact mem_idsOf.mpr ⟨p, List.mem_append_right _ hp, hid⟩
  | @setDefault old new now hnew =>
    show i ∈ idsOf (Write.apply (Write.apply ps (.unset old now)) (.set new now))
    rw [idsOf_set, idsOf_unset]
    exact hi

theorem keeps_commit {a : Unit} (h : Inv maxProfiles s) (hguard : Guarded maxProfiles s j .commit)
    (hp : ∀ held, s.conn j = .active held → Publishes held)
    (hx : (connService profileStore j).exec .commit s a = some t) : Others j s t ∧ Inv maxProfiles t := by
  obtain ⟨held, hconn, hkeys, rfl⟩ := conn_commit hx
  have hpub := hp held hconn
  refine ⟨fun i hi => Shared.conn_set_ne _ hi _, ?_⟩
  refine keeps_set (Or.inl rfl) ⟨publishes_healthy hpub h.healthy (h.present j held hconn) (hguard held hconn) hkeys, ?_⟩
  intro i held' hconn' ids now hset id hid
  exact publishes_ids hpub (h.present i held' hconn' ids now hset id hid)

end Steps

/-! ## Programs -/

/-- What a call lives in: the others can only break its connection. -/
def own (maxProfiles : Nat) (j : Client) : Setting (Client × TxOp Op) (fun o => TxAns Ans o.2) Clients where
  inv := Inv maxProfiles
  rely s t := t.conn j = s.conn j ∨ t.conn j = .broken
  guar := Others j
  ok := (Guard maxProfiles).did
  total := False
  rely_refl _ := Or.inl rfl
  rely_trans := by
    intro s t u hst htu
    rcases htu with htu | htu
    · exact hst.imp htu.trans htu.trans
    · exact Or.inr htu
  guar_refl _ := fun _ _ => rfl

/-- In its transaction the call has written `held`, such that `P`; unless the connection broke. -/
def InTx (j : Client) (P : List Write → Prop) (s : Clients) : Prop :=
  s.conn j = .broken ∨ ∃ held, s.conn j = .active held ∧ P held

/-- The statements of a clone's transaction. -/
def Adds : Op → Prop
  | .unsetDefault _ => False
  | .setDefault .. => False
  | .deleteProfileRow _ => False
  | _ => True

theorem Adds.plain {o : Op} (h : Adds o) : Plain o := by
  cases o with
  | unsetDefault now => exact h
  | setDefault profileId now => exact h
  | _ => trivial

theorem writes_adds {o : Op} {ps : List Profile} {a : Ans o} (ho : Adds o) : ∀ w ∈ writes o ps a, w.isInsert := by
  intro w hw
  cases o with
  | unsetDefault now => exact ho.elim
  | setDefault profileId now => exact ho.elim
  | deleteProfileRow profileId => exact ho.elim
  | insertProfile name description isDefault now =>
    obtain rfl := List.mem_singleton.mp hw
    rfl
  | _ => cases hw

section Programs

variable {maxProfiles : Nat} {j : Client} {α : Type} {s : Clients}

theorem InTx.rely {P : List Write → Prop} {t : Clients} (hr : t.conn j = s.conn j ∨ t.conn j = .broken)
    (h : InTx j P s) : InTx j P t := by
  rcases hr with hr | hr
  · unfold InTx
    rw [hr]
    exact h
  · exact Or.inl hr

theorem guarded_of_ok {o : TxOp Op} {a : TxAns Ans o}
    (h : ((own maxProfiles j).via j).ok s (.ran o a) ∨ ((own maxProfiles j).via j).ok s (.lost o a)) :
    Guarded maxProfiles s j o := by
  rcases h with h | h
  · exact h ⟨(j, o), a⟩ (.head _)
  · exact h ⟨(j, o), a⟩ (.head _)

theorem safe_query {o : Op} {k : Ans o → Session α} (ho : Plain o)
    (hk : ∀ a t, Safe (connService profileStore j) ((own maxProfiles j).via j) (k a) t) :
    Safe (connService profileStore j) ((own maxProfiles j).via j) ((query o).bind k) s := by
  refine wp_perform id (fun _ _ _ => trivial) ?_
  intro s' a t _ hi hx hok
  obtain ⟨hothers, hinv⟩ := keeps_plain ho hi (guarded_of_ok hok) hx
  exact ⟨hothers, hinv, fun _ => hk a t⟩

theorem safe_plain {p : Script α} (hp : p.Uses Plain) :
    Safe (connService profileStore j) ((own maxProfiles j).via j) p.onTx s := by
  refine safe_uses (P := OnTx Plain) id ?_ (uses_onTx hp) s
  intro o ho s a t hi hok hx
  cases o with
  | on o => exact keeps_plain ho hi (guarded_of_ok hok) hx
  | _ => exact ho.elim

/-- A transaction whose body leaves something to publish. -/
theorem safe_begin {body : Script α}
    (hbody : ∀ s, InTx j (· = []) s → wp (connService profileStore j) ((own maxProfiles j).via j) body.onTx
      (fun _ => InTx j Publishes) (fun _ _ => True) s) :
    Safe (connService profileStore j) ((own maxProfiles j).via j) (begin body) s := by
  refine wp_perform id (fun _ _ _ => trivial) ?_
  intro s₁ _ t _ hi hx _
  obtain rfl := conn_begin hx
  refine ⟨others_set j s₁ _, keeps_set (Or.inr (Or.inl rfl)) hi, fun _ => ?_⟩
  refine wp_bind (wp_attempt (wp_mono ?_ ?_ (hbody _ (Or.inr ⟨[], Shared.conn_set .., rfl⟩))))
  · intro a t hready
    refine wp_perform id (fun _ _ _ => trivial) ?_
    intro s₂ _ u hr hi₂ hx₂ hok
    have hpub : ∀ held, s₂.conn j = .active held → Publishes held := by
      intro held hconn
      rcases hready.rely hr with hbroken | ⟨held', hconn', hpub⟩
      · rw [hbroken] at hconn
        cases hconn
      · rw [hconn'] at hconn
        cases hconn
        exact hpub
    obtain ⟨hothers, hinv⟩ := keeps_commit hi₂ (guarded_of_ok hok) hpub hx₂
    exact ⟨hothers, hinv, fun _ => trivial⟩
  · intro e t _ s₂ _ hi₂
    refine ⟨False.elim, fun _ => trivial, ?_⟩
    intro a u hx₂
    obtain rfl := conn_rollback hx₂
    have hkept := keeps_set (j := j) (Or.inl rfl) hi₂
    exact ⟨fun _ => ⟨others_set j s₂ _, hkept, trivial⟩, fun _ => ⟨others_set j s₂ _, hkept, trivial⟩⟩

theorem createProfile_plain (name : String) (description : Option String) :
    (createProfile maxProfiles name description).Uses Plain := by
  refine uses_bind (uses_perform trivial) fun now => uses_bind (uses_perform trivial) fun cnt => ?_
  show Uses _ (if maxProfiles ≤ cnt then _ else _)
  split
  · trivial
  · exact uses_perform trivial

theorem deleteProfile_plain (profileId : Nat) : (deleteProfile profileId).Uses Plain := by
  refine (deleteProfile_uses profileId).mono ?_
  intro o ho
  cases ho with
  | deletion ho => rcases deletion_cases ho with rfl | rfl | rfl | rfl | rfl | rfl | rfl | rfl | rfl | rfl <;> trivial
  | _ => trivial

theorem cloneEdge_adds {insert : Nat → Nat → Script Unit} (hinsert : ∀ i k, (insert i k).Uses Adds) (fromMap toMap : IdMap)
    (edge : Nat × Nat) : (cloneEdge insert fromMap toMap edge).Uses Adds := by
  unfold cloneEdge
  split
  · exact hinsert _ _
  · trivial

theorem cloneMessageSource_adds (semanticIdMap : IdMap) (sms : Nat × Memory.MessageKey) :
    (cloneMessageSource semanticIdMap sms).Uses Adds := by
  unfold cloneMessageSource
  split
  · exact uses_perform trivial
  · trivial

theorem cloneLinks_adds (sourceId : Nat) (semanticIdMap metaIdMap : IdMap) :
    (cloneLinks sourceId semanticIdMap metaIdMap).Uses Adds := by
  refine uses_bind (uses_perform trivial) fun smsRows => ?_
  refine uses_bind (uses_forEach fun sms _ => cloneMessageSource_adds semanticIdMap sms) fun _ => ?_
  refine uses_bind (uses_perform trivial) fun spsRows => ?_
  refine uses_bind (uses_forEach fun edge _ => cloneEdge_adds (fun _ _ => uses_perform trivial) _ _ edge) fun _ => ?_
  refine uses_bind (uses_perform trivial) fun mmsRows => ?_
  refine uses_bind (uses_forEach fun edge _ => cloneEdge_adds (fun _ _ => uses_perform trivial) _ _ edge) fun _ => ?_
  refine uses_bind (uses_perform trivial) fun mpsRows => ?_
  exact uses_forEach fun edge _ => cloneEdge_adds (fun _ _ => uses_perform trivial) _ _ edge

theorem cloneSemantic_adds (newProfileId now : Nat) (semanticIdMap : IdMap) (oldId : Nat) :
    (cloneSemantic newProfileId now semanticIdMap oldId).Uses Adds := by
  refine uses_bind (uses_perform trivial) ?_
  intro id
  cases id <;> trivial

theorem cloneMeta_adds (newProfileId now : Nat) (metaIdMap : IdMap) (oldId : Nat) :
    (cloneMeta newProfileId now metaIdMap oldId).Uses Adds := by
  refine uses_bind (uses_perform trivial) ?_
  intro id
  cases id <;> trivial

theorem cloneBody_adds (sourceId : Nat) (newName : String) (description : Option String) (now : Nat) :
    (cloneBody sourceId newName description now).Uses Adds := by
  refine uses_bind ?_ fun rows => uses_bind (cloneLinks_adds sourceId rows.2.1 rows.2.2) fun _ => trivial
  refine uses_bind (uses_perform trivial) fun newProfile => ?_
  refine uses_bind (uses_perform trivial) fun _ => uses_bind (uses_perform trivial) fun _ => ?_
  refine uses_bind (uses_perform trivial) fun semanticSources => ?_
  refine uses_bind (uses_forFold fun map oldId => cloneSemantic_adds newProfile.id now map oldId) fun semanticIdMap => ?_
  refine uses_bind (uses_perform trivial) fun metaSources => ?_
  refine uses_bind (uses_forFold fun map oldId => cloneMeta_adds newProfile.id now map oldId) fun metaIdMap => ?_
  exact uses_bind (uses_perform trivial) fun _ => trivial

/-- A body that only adds leaves nothing but new rows to publish. -/
theorem adds_publishes {body : Script α} (hbody : body.Uses Adds) (hs : InTx j (· = []) s) :
    wp (connService profileStore j) ((own maxProfiles j).via j) body.onTx (fun _ => InTx j Publishes) (fun _ _ => True) s := by
  have hstart : InTx j (fun held => ∀ w ∈ held, w.isInsert) s := by
    refine hs.imp id ?_
    intro hs
    obtain ⟨held, hconn, rfl⟩ := hs
    exact ⟨[], hconn, nofun⟩
  refine wp_mono (fun _ t ht => ?_) (fun _ _ _ => trivial)
    (wp_uses (P := OnTx Adds) id (fun s t hr h => h.rely hr) ?_ (uses_onTx hbody) hstart)
  · exact ht.imp id fun ⟨held, hconn, hall⟩ => ⟨held, hconn, .clone hall⟩
  · intro o ho s a t hi hin hok hx
    cases o with
    | on o =>
      obtain ⟨hothers, hinv⟩ := keeps_plain (Adds.plain ho) hi (guarded_of_ok hok) hx
      refine ⟨hothers, hinv, ?_⟩
      obtain ⟨-, -, ⟨hidle, -, rfl⟩ | ⟨held, hconn, rfl⟩⟩ := conn_on hx
      · exact hin
      · refine Or.inr ⟨_, Shared.conn_set .., fun w hw => ?_⟩
        rcases List.mem_append.mp hw with hold | hnew
        · rcases hin with hbroken | ⟨held', hconn', hall⟩
          · rw [hbroken] at hconn
            cases hconn
          · rw [hconn'] at hconn
            cases hconn
            exact hall w hold
        · exact writes_adds ho w hnew
    | _ => exact ho.elim

theorem InTx.active {P : List Write → Prop} {held : List Write} (h : InTx j P s) (hconn : s.conn j = .active held) :
    P held := by
  rcases h with hbroken | ⟨held', hconn', hP⟩
  · rw [hbroken] at hconn
    cases hconn
  · rw [hconn'] at hconn
    cases hconn
    exact hP

theorem InTx.not_idle {P : List Write → Prop} (h : InTx j P s) : s.conn j ≠ .idle := by
  intro hidle
  rcases h with hbroken | ⟨held, hconn, _⟩
  · rw [hbroken] at hidle
    cases hidle
  · rw [hconn] at hidle
    cases hidle

/-- The two UPDATEs leave a change of the default to publish. -/
theorem setDefault_publishes {profileId now : Nat} (hs : InTx j (· = []) s) :
    wp (connService profileStore j) ((own maxProfiles j).via j)
      ((await (.unsetDefault now)).bind fun _ => await (.setDefault profileId now)).onTx
      (fun _ => InTx j Publishes) (fun _ _ => True) s := by
  refine wp_perform id (fun _ _ _ => trivial) ?_
  intro s₁ a t hr hi hx hok
  obtain ⟨-, -, ⟨hidle, -, -⟩ | ⟨held, hconn, rfl⟩⟩ := conn_on hx
  · exact ((hs.rely hr).not_idle hidle).elim
  · obtain rfl : held = [] := (hs.rely hr).active hconn
    have hsets : ∀ ids now', Write.set ids now' ∈ [Write.unset (idsOf (defaults (profileStore.view s₁ j))) now] →
        ∀ i ∈ ids, i ∈ idsOf s₁.committed := by
      intro ids now' hset
      cases List.mem_singleton.mp hset
    obtain ⟨hothers, hinv⟩ := keeps_active hi hconn hsets
    refine ⟨hothers, hinv, fun _ => ?_⟩
    refine wp_perform id (fun _ _ _ => trivial) ?_
    intro s₂ a₂ u hr₂ hi₂ hx₂ hok₂
    have hin : InTx j (fun held => ∃ old, held = [.unset old now]) s₂ := InTx.rely hr₂ (Or.inr ⟨_, Shared.conn_set .., _, rfl⟩)
    obtain ⟨-, -, ⟨hidle, -, -⟩ | ⟨held, hconn₂, rfl⟩⟩ := conn_on hx₂
    · exact (hin.not_idle hidle).elim
    · obtain ⟨old, rfl⟩ := hin.active hconn₂
      have hview : idsOf (profileStore.view s₂ j) = idsOf s₂.committed := by
        unfold RowStore.view
        rw [hconn₂]
        exact idsOf_unset old now s₂.committed
      have hguard : profileId ∈ idsOf (profileStore.view s₂ j) := hview ▸ guarded_of_ok hok₂
      have hsets : ∀ ids now', Write.set ids now' ∈
          [Write.set (idsOf ((profileStore.view s₂ j).filter (·.id == profileId))) now] → ∀ i ∈ ids, i ∈ idsOf s₂.committed := by
        intro ids now' hset i hi
        cases List.mem_singleton.mp hset
        rw [← hview]
        obtain ⟨p, hp, hid⟩ := mem_idsOf.mp hi
        exact mem_idsOf.mpr ⟨p, List.mem_of_mem_filter hp, hid⟩
      obtain ⟨hothers₂, hinv₂⟩ := keeps_active hi₂ hconn₂ hsets
      refine ⟨hothers₂, hinv₂, fun _ => Or.inr ⟨_, Shared.conn_set .., .setDefault ?_⟩⟩
      obtain ⟨p, hp, hid⟩ := mem_idsOf.mp hguard
      exact List.ne_nil_of_mem (mem_idsOf.mpr ⟨p, List.mem_filter.mpr ⟨hp, beq_iff_eq.mpr hid⟩, rfl⟩)

theorem session_safe (request : Request) :
    Safe (connService profileStore j) ((own maxProfiles j).via j) (session maxProfiles request) s := by
  cases request with
  | create name description => exact safe_bind (safe_plain (createProfile_plain name description)) fun _ _ => trivial
  | delete profileId => exact safe_plain (deleteProfile_plain profileId)
  | clone sourceId newName newDescription =>
    refine safe_bind (safe_query trivial ?_) fun _ _ => trivial
    intro source t
    cases source with
    | none => trivial
    | some source =>
      refine safe_query trivial fun cnt u => ?_
      show Safe _ _ (if maxProfiles ≤ cnt then _ else _) u
      split
      · trivial
      · exact safe_query trivial fun now _ => safe_begin fun _ hs => adds_publishes (cloneBody_adds ..) hs
  | setDefault profileId =>
    refine safe_query trivial ?_
    intro profile t
    cases profile with
    | none => trivial
    | some profile =>
      show Safe _ _ (if profile.isDefault then _ else _) t
      split
      · trivial
      · exact safe_query trivial fun now _ => safe_begin fun _ hs => setDefault_publishes hs

end Programs

/-! ## Runs -/

def contract {maxProfiles : Nat} {ps : List Profile} (h : Healthy maxProfiles ps) :
    Contract (clients maxProfiles ps) (Guard maxProfiles) where
  inv := Inv maxProfiles
  rely j s t := t.conn j = s.conn j ∨ t.conn j = .broken
  guar := Others
  rely_refl j := (own maxProfiles j).rely_refl
  rely_trans {j _ _ _} := (own maxProfiles j).rely_trans
  guar_refl j := (own maxProfiles j).guar_refl
  compat i j _ _ hij hothers := Or.inl (hothers j (Ne.symm hij))
  init := ⟨h, fun _ _ hconn => nomatch hconn⟩
  env s e t hi _ ht := by
    obtain rfl := hangUp_spec ht
    refine ⟨keeps_set (Or.inr (Or.inr rfl)) hi, fun j => ?_⟩
    by_cases hj : j = e
    · subst hj
      exact Or.inr (Shared.conn_set ..)
    · exact Or.inl (Shared.conn_set_ne s hj _)
  jobs j s _ _ := wp_via (session_safe j.2)

/-- However the statements of the calls are interleaved, and whichever of them fail: as
    long as a profile is inserted or published only below the limit, only a profile that
    is not the default is deleted, and the profile to be made the default is there, one
    profile is the default and there are at most `maxProfiles`. -/
theorem stays_healthy (maxProfiles : Nat) (ps : List Profile) (h : Healthy maxProfiles ps)
    (x : Conf (Client × TxOp Op) (fun o => TxAns Ans o.2) Clients Client)
    (hx : Reach (clients maxProfiles ps).system (Guard maxProfiles).meets x) : Healthy maxProfiles x.db.committed :=
  ((contract h).safe hx).healthy

/-! ## Concrete runs -/

def twoProfiles : List Profile := [⟨0, "default", none, true, 1, 1⟩, ⟨1, "work", none, false, 2, 2⟩]

abbrev Running := Conf (Client × TxOp Op) (fun o => TxAns Ans o.2) Clients Client

abbrev Happening := Event (Client × TxOp Op) (fun o => TxAns Ans o.2) Client Client

def answered (j : Client) (o : Op) (a : Ans o) : Happening := .step j (.ran (j, .on o) a)

/-- A profile is created while another is deleted. -/
def createdWhileDeleting : List Happening :=
  let del : Client := (0, .delete 1)
  let new : Client := (1, .create "home" none)
  let profile : Option Profile := some ⟨1, "work", none, false, 2, 2⟩
  [.start del, answered del (.getProfile 1) profile, .start new, answered new .now (3 : Nat),
    answered del (.countChats 1) (0 : Nat), answered del (.deleteMetaSourcesByMeta 1) (), answered new .countProfiles (2 : Nat),
    answered del (.deleteMetaSourcesBySemantic 1) (), answered del (.deleteSummaryParents 1) (),
    answered new (.insertProfile "home" none false 3) (⟨2, "home", none, false, 3, 3⟩ : Profile), .finish new,
    answered del (.deleteSummaryMessages 1) (), answered del (.deleteExternals 1) (), answered del (.deleteMetas 1) (),
    answered del (.deleteSemantics 1) (), answered del (.deletePersonality 1) (), answered del (.deleteIdentity 1) (),
    answered del (.deleteProfileRow 1) (), .finish del]

theorem meets_answered {maxProfiles : Nat} {x : Running} {j : Client} {o : Op} {a : Ans o}
    (h : Guarded maxProfiles x.db j (.on o)) : (Guard maxProfiles).meets x (answered j o a) := by
  intro d hd
  obtain rfl := List.mem_singleton.mp hd
  exact h

theorem stays_healthy_created_while_deleting : ∃ x, Reach (clients 3 twoProfiles).system (Guard 3).meets x ∧
    idsOf x.db.committed = [2, 0] ∧ Healthy 3 x.db.committed := by
  have hmeets : Meets (M := (clients 3 twoProfiles).system) (Guard 3).meets (clients 3 twoProfiles).system.init
      createdWhileDeleting := by
    refine And.intro trivial (And.intro (meets_answered trivial) (And.intro trivial (And.intro (meets_answered trivial)
      (And.intro (meets_answered trivial) (And.intro (meets_answered trivial) (And.intro (meets_answered trivial)
      (And.intro (meets_answered trivial) (And.intro (meets_answered trivial) (And.intro (meets_answered ?_)
      (And.intro trivial (And.intro (meets_answered trivial) (And.intro (meets_answered trivial)
      (And.intro (meets_answered trivial) (And.intro (meets_answered trivial) (And.intro (meets_answered trivial)
      (And.intro (meets_answered trivial) (And.intro (meets_answered ?_) (And.intro trivial trivial))))))))))))))))))
    · exact fun _ => (by decide : 2 < 3)
    · show ∀ p ∈ ([⟨2, "home", none, false, 3, 3⟩, ⟨0, "default", none, true, 1, 1⟩, ⟨1, "work", none, false, 2, 2⟩] :
        List Profile),
        p.id = 1 → p.isDefault = false
      decide
  obtain ⟨x, hx, hp⟩ := reach_any (P := fun x : Running => decide (idsOf x.db.committed = [2, 0])) createdWhileDeleting hmeets
    (by decide)
  exact ⟨x, hx, of_decide_eq_true hp, stays_healthy 3 twoProfiles ⟨rfl, by decide⟩ x hx⟩

/-- A profile is made the default after `deleteProfile` has found that it is not. -/
def deletedWhileMadeDefault : List Happening :=
  let del : Client := (0, .delete 1)
  let set : Client := (1, .setDefault 1)
  let profile : Option Profile := some ⟨1, "work", none, false, 2, 2⟩
  [.start del, answered del (.getProfile 1) profile, answered del (.countChats 1) (0 : Nat),
    .start set, answered set (.getProfile 1) profile, answered set .now (5 : Nat), .step set (.ran (set, .begin) ()),
    answered set (.unsetDefault 5) (), answered set (.setDefault 1 5) (), .step set (.ran (set, .commit) ()), .finish set,
    answered del (.deleteMetaSourcesByMeta 1) (), answered del (.deleteMetaSourcesBySemantic 1) (),
    answered del (.deleteSummaryParents 1) (), answered del (.deleteSummaryMessages 1) (),
    answered del (.deleteExternals 1) (), answered del (.deleteMetas 1) (), answered del (.deleteSemantics 1) (),
    answered del (.deletePersonality 1) (), answered del (.deleteIdentity 1) (), answered del (.deleteProfileRow 1) (),
    .finish del]

/-- Two profiles are created below the limit, each counted before the other is there. -/
def createdTogether : List Happening :=
  let a : Client := (0, .create "home" none)
  let b : Client := (1, .create "travel" none)
  [.start a, answered a .now (3 : Nat), answered a .countProfiles (2 : Nat),
    .start b, answered b .now (3 : Nat), answered b .countProfiles (2 : Nat),
    answered a (.insertProfile "home" none false 3) (⟨2, "home", none, false, 3, 3⟩ : Profile), .finish a,
    answered b (.insertProfile "travel" none false 3) (⟨3, "travel", none, false, 3, 3⟩ : Profile), .finish b]

def allFinished (x : Running) : Bool :=
  [((0, .delete 1) : Client), (1, .setDefault 1), (0, .create "home" none), (1, .create "travel" none)].all fun j =>
    (x.jobs j).isNone

theorem deleted_while_made_default :
    (∃ x, Reach (clients 3 twoProfiles).system Free x ∧ allFinished x = true ∧ defaults x.db.committed = []) ∧
      ∃ x, Reach (clients 3 twoProfiles).system Free x ∧ allFinished x = true ∧ x.db.committed.length = 4 := by
  constructor
  · obtain ⟨x, hx, hp⟩ := reach_any (M := (clients 3 twoProfiles).system) (C := Free)
      (P := fun x : Running => allFinished x && decide (defaults x.db.committed = []))
      deletedWhileMadeDefault (meets_free _ _) (by decide)
    obtain ⟨hdone, hnone⟩ := (Bool.and_eq_true ..).mp hp
    exact ⟨x, hx, hdone, of_decide_eq_true hnone⟩
  · obtain ⟨x, hx, hp⟩ := reach_any (M := (clients 3 twoProfiles).system) (C := Free)
      (P := fun x : Running => allFinished x && decide (x.db.committed.length = 4)) createdTogether (meets_free _ _) (by decide)
    obtain ⟨hdone, hfour⟩ := (Bool.and_eq_true ..).mp hp
    exact ⟨x, hx, hdone, of_decide_eq_true hfour⟩

end FlowHelm.Profiles
