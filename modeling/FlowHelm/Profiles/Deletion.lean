/-
  FlowHelm.Profiles.Deletion — what `deleteProfile` has deleted when it throws.

  The call checks for assigned chats and then runs ten DELETEs, no transaction around
  them; only the last one, of the profile's row, meets the foreign key of `chats`. Beside
  it run any `assignChat` calls, statement by statement, and any statement can fail.

  - `deleteProfile_kept_iff`: at a throw the profile's memories, links, identity and
    personality are all still there just if no DELETE executed so far had any of them to
    delete.
  - `assigned_meanwhile_loses`: a chat assigned after the check makes the last DELETE
    fail when everything else is gone.
-/
import FlowHelm.Lib.History
import FlowHelm.Profiles.Clone

namespace FlowHelm.Profiles

open Memory (Profile Chat MessageKey)
open Script Prog Runs

/-- A call of `deleteProfile`, and any of `assignChat`. -/
inductive Call where
  | delete
  | assign (chatId : String) (profileId : Nat)
  deriving DecidableEq

/-- The calls over a database that is `s` at first. -/
def calls (s : Db) (profileId : Nat) : Machine Op Ans Db Call Empty where
  svc := service
  init := s
  program
    | .delete => deleteProfile profileId
    | .assign chatId target => (assignChat chatId target).bind fun _ => .ret ()
  env _ e := nomatch e

/-- All the memories, links, identity and personality rows of the profile in `s` are in `t`. -/
structure Kept (profileId : Nat) (s t : Tables) : Prop where
  semantics : ∀ r ∈ s.semantics, r.profileId = profileId → r ∈ t.semantics
  metas : ∀ r ∈ s.metas, r.profileId = profileId → r ∈ t.metas
  externals : ∀ r ∈ s.externals, r.profileId = profileId → r ∈ t.externals
  identities : ∀ r ∈ s.identities, r.profileId = profileId → r ∈ t.identities
  personalities : ∀ r ∈ s.personalities, r.profileId = profileId → r ∈ t.personalities
  messageSources : ∀ e ∈ s.messageSources, e.1 ∈ s.semanticIdsOf profileId → e ∈ t.messageSources
  parentSources : ∀ e ∈ s.parentSources,
    e.1 ∈ s.semanticIdsOf profileId ∨ e.2 ∈ s.semanticIdsOf profileId → e ∈ t.parentSources
  metaSources : ∀ e ∈ s.metaSources,
    e.1 ∈ s.metaIdsOf profileId ∨ e.2 ∈ s.semanticIdsOf profileId → e ∈ t.metaSources
  metaParents : ∀ e ∈ s.metaParents, e.1 ∈ s.metaIdsOf profileId ∨ e.2 ∈ s.metaIdsOf profileId → e ∈ t.metaParents

/-- The DELETE has a row of the profile, or a link of one, to delete. -/
def Finds (t : Tables) : Op → Prop
  | .deleteMetaSourcesByMeta p => ∃ e ∈ t.metaSources, e.1 ∈ t.metaIdsOf p
  | .deleteMetaSourcesBySemantic p => ∃ e ∈ t.metaSources, e.2 ∈ t.semanticIdsOf p
  | .deleteSummaryParents p => ∃ e ∈ t.parentSources, e.1 ∈ t.semanticIdsOf p ∨ e.2 ∈ t.semanticIdsOf p
  | .deleteSummaryMessages p => ∃ e ∈ t.messageSources, e.1 ∈ t.semanticIdsOf p
  | .deleteExternals p => ∃ r ∈ t.externals, r.profileId = p
  | .deleteMetas p => ∃ r ∈ t.metas, r.profileId = p
  | .deleteSemantics p => ∃ r ∈ t.semantics, r.profileId = p
  | .deletePersonality p => ∃ r ∈ t.personalities, r.profileId = p
  | .deleteIdentity p => ∃ r ∈ t.identities, r.profileId = p
  | _ => False

/-- The statements of the calls. -/
inductive Ours (profileId : Nat) : Op → Prop
  | getProfile (target : Nat) : Ours profileId (.getProfile target)
  | countChats : Ours profileId (.countChats profileId)
  | chatProfile (chatId : String) : Ours profileId (.chatProfile chatId)
  | setChatProfile (chatId : String) (target : Nat) : Ours profileId (.setChatProfile chatId target)
  | deletion {o : Op} : o ∈ deletions profileId → Ours profileId o

theorem deleteProfile_uses (profileId : Nat) : (deleteProfile profileId).Uses (Ours profileId) := by
  have hdel : ∀ o, o ∈ deletions profileId → Ours profileId o := fun _ => .deletion
  refine uses_bind (uses_perform (.getProfile profileId)) ?_
  intro profile
  cases profile with
  | none => trivial
  | some profile =>
    show Uses _ (if profile.isDefault then _ else _)
    split
    · trivial
    · refine uses_bind (uses_perform .countChats) ?_
      intro cnt
      show Uses _ (if 0 < cnt then _ else _)
      split
      · trivial
      · iterate 9 refine uses_bind (uses_perform (hdel _ (by simp [deletions]))) fun _ => ?_
        exact uses_perform (hdel _ (by simp [deletions]))

theorem assignChat_uses (profileId : Nat) (chatId : String) (target : Nat) :
    (assignChat chatId target).Uses (Ours profileId) := by
  refine uses_bind (uses_perform (.getProfile target)) ?_
  intro profile
  cases profile with
  | none => trivial
  | some profile =>
    refine uses_bind (uses_perform (.chatProfile chatId)) ?_
    intro previous
    cases previous with
    | none => trivial
    | some previous => exact uses_bind (uses_perform (.setChatProfile chatId target)) fun _ => trivial

theorem calls_use (s : Db) (profileId : Nat) (j : Call) : ((calls s profileId).program j).Uses (Ours profileId) := by
  cases j with
  | delete => exact deleteProfile_uses profileId
  | assign chatId target => exact uses_bind (assignChat_uses profileId chatId target) fun _ => trivial

/-! ## What one statement does -/

/-- Nothing of the memories, links, identities and personalities has changed. -/
def SameRows (s t : Tables) : Prop := t = { s with profiles := t.profiles, chats := t.chats }

theorem sameRows_iff {s t : Tables} : SameRows s t ↔ ∃ profiles chats, t = { s with profiles, chats } := by
  constructor
  · intro h
    exact ⟨_, _, h⟩
  · intro h
    obtain ⟨_, _, rfl⟩ := h
    rfl

theorem deletion_cases {profileId : Nat} {o : Op} (ho : o ∈ deletions profileId) :
    o = .deleteMetaSourcesByMeta profileId ∨ o = .deleteMetaSourcesBySemantic profileId ∨
      o = .deleteSummaryParents profileId ∨ o = .deleteSummaryMessages profileId ∨ o = .deleteExternals profileId ∨
      o = .deleteMetas profileId ∨ o = .deleteSemantics profileId ∨ o = .deletePersonality profileId ∨
      o = .deleteIdentity profileId ∨ o = .deleteProfileRow profileId := by
  simpa only [deletions, List.mem_cons, List.not_mem_nil, or_false] using ho

theorem filter_none {E : Type} {rows : List E} {gone : E → Prop} [DecidablePred gone] (h : ¬∃ e ∈ rows, gone e) :
    rows.filter (fun e => ¬gone e) = rows := by
  rw [List.filter_eq_self]
  intro e he
  simpa using fun hg => h ⟨e, he, hg⟩

theorem metaIdsOf_nil {t : Tables} {profileId : Nat} (h : ¬∃ r ∈ t.metas, r.profileId = profileId) :
    t.metaIdsOf profileId = [] := by
  apply List.eq_nil_iff_forall_not_mem.mpr
  intro i hi
  obtain ⟨r, hr, hp, -⟩ := mem_metaIdsOf.mp hi
  exact h ⟨r, hr, hp⟩

theorem semanticIdsOf_nil {t : Tables} {profileId : Nat} (h : ¬∃ r ∈ t.semantics, r.profileId = profileId) :
    t.semanticIdsOf profileId = [] := by
  apply List.eq_nil_iff_forall_not_mem.mpr
  intro i hi
  obtain ⟨r, hr, hp, -⟩ := mem_semanticIdsOf.mp hi
  exact h ⟨r, hr, hp⟩

theorem filter_others {R : Type} {rows : List R} {owner : R → Nat} {profileId : Nat}
    (h : ¬∃ r ∈ rows, owner r = profileId) : rows.filter (owner · != profileId) = rows := by
  rw [List.filter_eq_self]
  intro r hr
  simpa using fun hp => h ⟨r, hr, hp⟩

theorem dropMetas_same {t : Tables} {profileId : Nat} (h : ¬∃ r ∈ t.metas, r.profileId = profileId) :
    t.dropMetas profileId = t := by
  unfold Tables.dropMetas
  simp [metaIdsOf_nil h, filter_others h]

theorem dropSemantics_same {t : Tables} {profileId : Nat} (h : ¬∃ r ∈ t.semantics, r.profileId = profileId) :
    t.dropSemantics profileId = t := by
  unfold Tables.dropSemantics
  simp [semanticIdsOf_nil h, filter_others h]

/-- A DELETE that finds nothing leaves every row. -/
theorem effect_same {profileId : Nat} {o : Op} {s t : Tables} {a : Ans o} (ho : Ours profileId o) (hs : SameRows s t)
    (hnone : ¬Finds s o) : SameRows s (effect o t a) := by
  obtain ⟨profiles, chats, rfl⟩ := sameRows_iff.mp hs
  apply sameRows_iff.mpr
  cases ho with
  | getProfile target => exact ⟨profiles, chats, rfl⟩
  | countChats => exact ⟨profiles, chats, rfl⟩
  | chatProfile chatId => exact ⟨profiles, chats, rfl⟩
  | setChatProfile chatId target => exact ⟨profiles, _, rfl⟩
  | deletion ho =>
    rcases deletion_cases ho with rfl | rfl | rfl | rfl | rfl | rfl | rfl | rfl | rfl | rfl
    · exact ⟨profiles, chats, congrArg (fun rows => { s with profiles, chats, metaSources := rows }) (filter_none hnone)⟩
    · exact ⟨profiles, chats, congrArg (fun rows => { s with profiles, chats, metaSources := rows }) (filter_none hnone)⟩
    · exact ⟨profiles, chats, congrArg (fun rows => { s with profiles, chats, parentSources := rows }) (filter_none hnone)⟩
    · exact ⟨profiles, chats, congrArg (fun rows => { s with profiles, chats, messageSources := rows }) (filter_none hnone)⟩
    · exact ⟨profiles, chats, congrArg (fun rows => { s with profiles, chats, externals := rows }) (filter_others hnone)⟩
    · exact ⟨profiles, chats, dropMetas_same hnone⟩
    · exact ⟨profiles, chats, dropSemantics_same hnone⟩
    · exact ⟨profiles, chats, congrArg (fun rows => { s with profiles, chats, personalities := rows }) (filter_others hnone)⟩
    · exact ⟨profiles, chats, congrArg (fun rows => { s with profiles, chats, identities := rows }) (filter_others hnone)⟩
    · exact ⟨_, chats, rfl⟩

theorem not_mem_filter {E : Type} {rows : List E} (gone : E → Prop) [DecidablePred gone] {e : E} (h : gone e) :
    e ∉ rows.filter fun e => ¬gone e := by
  intro he
  have hkeep := (List.mem_filter.mp he).2
  simp only [decide_not, Bool.not_eq_true', decide_eq_false_iff_not] at hkeep
  exact hkeep h

theorem not_mem_others {R : Type} {rows : List R} {owner : R → Nat} {profileId : Nat} {r : R} (h : owner r = profileId) :
    r ∉ rows.filter (owner · != profileId) := by
  intro hr
  simpa [h] using (List.mem_filter.mp hr).2

/-- One that finds something has taken it. -/
theorem effect_lost {profileId : Nat} {o : Op} {s t : Tables} {a : Ans o} (ho : Ours profileId o) (hs : SameRows s t)
    (hfinds : Finds s o) : ¬Kept profileId s (effect o t a) := by
  obtain ⟨profiles, chats, rfl⟩ := sameRows_iff.mp hs
  intro hkept
  cases ho with
  | getProfile target => exact hfinds
  | countChats => exact hfinds
  | chatProfile chatId => exact hfinds
  | setChatProfile chatId target => exact hfinds
  | deletion ho =>
    rcases deletion_cases ho with rfl | rfl | rfl | rfl | rfl | rfl | rfl | rfl | rfl | rfl
    · obtain ⟨e, he, hin⟩ := hfinds
      exact not_mem_filter (fun e : Nat × Nat => e.1 ∈ s.metaIdsOf profileId) hin (hkept.metaSources e he (Or.inl hin))
    · obtain ⟨e, he, hin⟩ := hfinds
      exact not_mem_filter (fun e : Nat × Nat => e.2 ∈ s.semanticIdsOf profileId) hin (hkept.metaSources e he (Or.inr hin))
    · obtain ⟨e, he, hin⟩ := hfinds
      let gone (e : Nat × Nat) : Prop := e.1 ∈ s.semanticIdsOf profileId ∨ e.2 ∈ s.semanticIdsOf profileId
      exact not_mem_filter gone hin (hkept.parentSources e he hin)
    · obtain ⟨e, he, hin⟩ := hfinds
      exact not_mem_filter (fun e : Nat × MessageKey => e.1 ∈ s.semanticIdsOf profileId) hin
        (hkept.messageSources e he hin)
    · obtain ⟨r, hr, hp⟩ := hfinds
      exact not_mem_others hp (hkept.externals r hr hp)
    · obtain ⟨r, hr, hp⟩ := hfinds
      exact not_mem_others hp (hkept.metas r hr hp)
    · obtain ⟨r, hr, hp⟩ := hfinds
      exact not_mem_others hp (hkept.semantics r hr hp)
    · obtain ⟨r, hr, hp⟩ := hfinds
      exact not_mem_others hp (hkept.personalities r hr hp)
    · obtain ⟨r, hr, hp⟩ := hfinds
      exact not_mem_others hp (hkept.identities r hr hp)
    · exact hfinds

/-- Every row and link of `u` is one of `t`. -/
structure Within (u t : Tables) : Prop where
  semantics : ∀ r ∈ u.semantics, r ∈ t.semantics
  metas : ∀ r ∈ u.metas, r ∈ t.metas
  externals : ∀ r ∈ u.externals, r ∈ t.externals
  identities : ∀ r ∈ u.identities, r ∈ t.identities
  personalities : ∀ r ∈ u.personalities, r ∈ t.personalities
  messageSources : ∀ e ∈ u.messageSources, e ∈ t.messageSources
  parentSources : ∀ e ∈ u.parentSources, e ∈ t.parentSources
  metaSources : ∀ e ∈ u.metaSources, e ∈ t.metaSources
  metaParents : ∀ e ∈ u.metaParents, e ∈ t.metaParents

theorem Kept.within {profileId : Nat} {s t u : Tables} (h : Kept profileId s u) (hu : Within u t) : Kept profileId s t :=
  ⟨fun r hr hp => hu.semantics r (h.semantics r hr hp), fun r hr hp => hu.metas r (h.metas r hr hp),
    fun r hr hp => hu.externals r (h.externals r hr hp), fun r hr hp => hu.identities r (h.identities r hr hp),
    fun r hr hp => hu.personalities r (h.personalities r hr hp),
    fun e he hin => hu.messageSources e (h.messageSources e he hin),
    fun e he hin => hu.parentSources e (h.parentSources e he hin),
    fun e he hin => hu.metaSources e (h.metaSources e he hin),
    fun e he hin => hu.metaParents e (h.metaParents e he hin)⟩

/-- No statement of the calls adds a row or a link. -/
theorem effect_within {profileId : Nat} {o : Op} {t : Tables} {a : Ans o} (ho : Ours profileId o) : Within (effect o t a) t := by
  cases ho with
  | deletion ho =>
    rcases deletion_cases ho with rfl | rfl | rfl | rfl | rfl | rfl | rfl | rfl | rfl | rfl <;>
      constructor <;> intro e he <;> first | exact he | exact List.mem_of_mem_filter he
  | _ => exact ⟨fun _ h => h, fun _ h => h, fun _ h => h, fun _ h => h, fun _ h => h, fun _ h => h, fun _ h => h,
      fun _ h => h, fun _ h => h⟩

/-! ## Runs -/

theorem SameRows.kept {profileId : Nat} {s t : Tables} (h : SameRows s t) : Kept profileId s t := by
  rw [h]
  exact ⟨fun _ hr _ => hr, fun _ hr _ => hr, fun _ hr _ => hr, fun _ hr _ => hr, fun _ hr _ => hr, fun _ he _ => he,
    fun _ he _ => he, fun _ he _ => he, fun _ he _ => he⟩

/-- Whatever is interleaved with it and whichever statement has failed: when `deleteProfile`
    throws, all of the profile's rows and links are there just if no DELETE it executed
    had any to delete. -/
theorem deleteProfile_kept_iff (s : Db) (profileId : Nat) (es : List (Event Op Ans Call Empty)) (x : Conf Op Ans Db Call)
    (he : exec (calls s profileId).system (calls s profileId).system.init es = some x) (e : Exn Op)
    (_ : x.jobs .delete = some (.throw e)) :
    Kept profileId s.toTables x.db.toTables ↔ ∀ d ∈ executed es, ¬Finds s.toTables d.1 := by
  let R : List (Done Op Ans) → Db → Prop := fun past t => ((∀ d ∈ past, ¬Finds s.toTables d.1) → SameRows s.toTables t.toTables) ∧
    ((∃ d ∈ past, Finds s.toTables d.1) → ¬Kept profileId s.toTables t.toTables)
  have hR : R (executed es) x.db := by
    refine exec_induction (calls_use s profileId) (R := R) ⟨fun _ => rfl, by simp⟩ ?_ nofun he
    intro past o a u v ho hR hx
    obtain ⟨hsame, hlost⟩ := hR
    show (_ → SameRows s.toTables v.toTables) ∧ (_ → ¬Kept profileId s.toTables v.toTables)
    rw [(exec_spec hx).2]
    constructor
    · intro hall
      exact effect_same ho (hsame fun d hd => hall d (List.mem_append_left _ hd))
        (hall _ (List.mem_append_right _ (.head _)))
    · intro hex
      obtain ⟨d, hd, hfinds⟩ := hex
      rcases List.mem_append.mp hd with hd | hd
      · exact fun hkept => hlost ⟨d, hd, hfinds⟩ (hkept.within (effect_within ho))
      · by_cases hpast : ∃ d ∈ past, Finds s.toTables d.1
        · exact fun hkept => hlost hpast (hkept.within (effect_within ho))
        · obtain rfl := List.mem_singleton.mp hd
          exact effect_lost ho (hsame fun d hd hf => hpast ⟨d, hd, hf⟩) hfinds
  constructor
  · intro hkept d hd hfinds
    exact hR.2 ⟨d, hd, hfinds⟩ hkept
  · intro hall
    exact (hR.1 hall).kept

/-! ## Concrete runs -/

/-- A default profile with a chat, and a second one with a memory. -/
def workProfile : Db where
  profiles := [⟨0, "default", none, true, 1, 1⟩, ⟨1, "work", none, false, 2, 2⟩]
  chats := [⟨"chat", 0⟩]
  sessions := []
  messages := []
  identities := []
  personalities := []
  semantics := [⟨2, "deadline", [1], .summary, 1, 0, 2, none, 1, none, none, 4, 4, 4, 0⟩]
  metas := []
  externals := []
  messageSources := []
  parentSources := []
  metaSources := []
  metaParents := []
  valid := by decide

def work : Option Profile := some ⟨1, "work", none, false, 2, 2⟩

/-- The chat of the default profile is given to the other while that one is deleted. -/
def assignedMeanwhile : List (Event Op Ans Call Empty) :=
  let assign := Call.assign "chat" 1
  [.start .delete, .step .delete (.ran (.getProfile 1) work), .step .delete (.ran (.countChats 1) (0 : Nat)),
    .start assign, .step assign (.ran (.getProfile 1) work), .step assign (.ran (.chatProfile "chat") (some 0)),
    .step assign (.ran (.setChatProfile "chat" 1) ()), .finish assign,
    .step .delete (.ran (.deleteMetaSourcesByMeta 1) ()), .step .delete (.ran (.deleteMetaSourcesBySemantic 1) ()),
    .step .delete (.ran (.deleteSummaryParents 1) ()), .step .delete (.ran (.deleteSummaryMessages 1) ()),
    .step .delete (.ran (.deleteExternals 1) ()), .step .delete (.ran (.deleteMetas 1) ()),
    .step .delete (.ran (.deleteSemantics 1) ()), .step .delete (.ran (.deletePersonality 1) ()),
    .step .delete (.ran (.deleteIdentity 1) ()), .step .delete (.refused (.deleteProfileRow 1))]

/-- What a program that has thrown threw. -/
def thrown : Option (Script Unit) → Option (Exn Op)
  | some (.throw e) => some e
  | _ => none

theorem thrown_some {p : Option (Script Unit)} {e : Exn Op} (h : thrown p = some e) : p = some (.throw e) := by
  unfold thrown at h
  split at h
  · cases h
    rfl
  · cases h

theorem assigned_meanwhile_loses : ∃ x e, exec (calls workProfile 1).system (calls workProfile 1).system.init
    assignedMeanwhile = some x ∧ x.jobs .delete = some (.throw e) ∧ service.exec (.deleteProfileRow 1) x.db () = none ∧
      ¬Kept 1 workProfile.toTables x.db.toTables := by
  have hruns : (exec (calls workProfile 1).system (calls workProfile 1).system.init assignedMeanwhile).any (fun x =>
      thrown (x.jobs .delete) == some (.failed (.deleteProfileRow 1) .refused) &&
        (service.exec (.deleteProfileRow 1) x.db ()).isNone && decide (x.db.semantics = [])) = true := by
    decide
  obtain ⟨x, hx, hall⟩ := (Option.any_eq_true _ _).mp hruns
  simp only [Bool.and_eq_true, beq_iff_eq, Option.isNone_iff_eq_none, decide_eq_true_eq] at hall
  obtain ⟨⟨hthrown, hrefused⟩, hnone⟩ := hall
  refine ⟨x, _, hx, thrown_some hthrown, hrefused, ?_⟩
  intro hkept
  have hin := hkept.semantics _ (.head _) rfl
  rw [hnone] at hin
  cases hin

/-- The six DELETEs before that of the memories find nothing, and that one fails. -/
def refusedMemories : List (Event Op Ans Call Empty) :=
  assignedMeanwhile.take 14 ++ [.step .delete (.refused (.deleteSemantics 1))]

theorem deleteProfile_kept_memories_refused : ∃ x e,
    exec (calls workProfile 1).system (calls workProfile 1).system.init refusedMemories = some x ∧
    x.jobs .delete = some (.throw e) ∧ Kept 1 workProfile.toTables x.db.toTables := by
  have hruns : (exec (calls workProfile 1).system (calls workProfile 1).system.init refusedMemories).any
      (fun x => (thrown (x.jobs .delete)).isSome) = true := by
    decide
  obtain ⟨x, hx, hsome⟩ := (Option.any_eq_true _ _).mp hruns
  obtain ⟨e, hthrown⟩ := Option.isSome_iff_exists.mp hsome
  refine ⟨x, e, hx, thrown_some hthrown, ?_⟩
  have hnone : ∀ {E : Type} {P : E → Prop}, ¬∃ r ∈ ([] : List E), P r := fun ⟨_, hr, _⟩ => absurd hr List.not_mem_nil
  refine (deleteProfile_kept_iff workProfile 1 _ x hx e (thrown_some hthrown)).mpr (List.forall_iff_forall_mem.mp ?_)
  exact ⟨id, id, id, id, id, hnone, hnone, hnone, hnone, hnone, hnone⟩

end FlowHelm.Profiles
