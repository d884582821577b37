/-
  FlowHelm.Memory.ReflectionCount — whether the number a reflection run returns is that of
  the `memory_meta` rows it inserted.

  `runReflection` and `runCondensation` catch whatever is thrown and return 0, the rows they
  have inserted by then included, and `runForProfile` goes on to the next depth only if the
  number of this one is not 0. `audit` is the run with a log of what each of these calls and
  each depth came to; a trace is any, of a run alone or among others.

  - `audit_forgets`: without its log the audit is the run.
  - `audit_accounts`: what the log has to do with the trace and the number.
  - `reflection_counts`: the number is right, and no depth with new rows is the last, if and
    only if no call fails that has inserted a row.
  - `a_row_is_not_counted`: a run where one does.
-/
import FlowHelm.Lib.Tally
import FlowHelm.Memory.Footprint

namespace FlowHelm.Memory

open Js Script Prog Runs

def Op.inserts : Op → Bool
  | .insertMeta _ => true
  | _ => false

/-- The rows a trace has inserted into `memory_meta`. -/
def inserted (tr : List (Did Op Ans)) : Nat := count Op.inserts tr

@[simp] theorem inserted_nil : inserted [] = 0 := rfl

@[simp] theorem inserted_append (tr₁ tr₂ : List (Did Op Ans)) : inserted (tr₁ ++ tr₂) = inserted tr₁ + inserted tr₂ :=
  count_append ..

/-! ## The audit -/

inductive LogEntry where
  /-- A call of `runReflection` or `runCondensation`: whether its `catch` was taken, and what it inserted. -/
  | call (failed : Bool) (rows : Nat)
  /-- A depth: what `condenseMeta` returned for it, and the rows its calls inserted. -/
  | depth (created rows : Nat)
  deriving DecidableEq

namespace LogEntry

def rows : LogEntry → Nat
  | call _ rows => rows
  | depth .. => 0

/-- The rows of a call that is answered by 0. -/
def lost : LogEntry → Nat
  | call true rows => rows
  | _ => 0

end LogEntry

def rowsIn (log : List LogEntry) : Nat := (log.map (·.rows)).sum

def lostIn (log : List LogEntry) : Nat := (log.map (·.lost)).sum

abbrev Audit := Script (Nat × List LogEntry)

section Audit

variable (cfg : ReflectionConfig) (numberText : ℚ → JsString)

/-- The `try` of `runReflection`. -/
def reflectionBody (type : MetaMemoryType) (systemPrompt : Prompt) (content : JsString) (sourceIds : List Nat)
    (profileId depth : Nat) : Script Nat := do
  let result ← await (.summarize content 500 systemPrompt)
  let reflections ← parseReflections result
  forSum reflections (reflectOne cfg type sourceIds profileId depth)

/-- The `try` of `runCondensation`. -/
def condensationBody (type : MetaMemoryType) (systemPrompt : Prompt) (content : JsString) (childIds : List Nat)
    (profileId depth : Nat) (confidenceFloor : ℚ) (maxTokens : Nat) : Script Nat := do
  let result ← await (.summarize content maxTokens systemPrompt)
  let reflections ← parseReflections result
  forSum reflections (condenseOne type childIds profileId depth confidenceFloor)

def logCall (body : Script Nat) : Audit := guarded Op.inserts .call body 0

def auditD0 (profileId : Nat) : Audit := do
  let stateRow ← await .lastReflectionAt
  let recentEntries ← await (.recentEntries profileId (stateRow.getD 0))
  if recentEntries.length < cfg.minSemanticEntries then return (0, [])
  else
    let truncated := truncateToTokens (entriesText (recentEntries.map (entryLine numberText))) cfg.maxInputTokens
    let sourceIds := recentEntries.map (·.id)
    forSumLogged allTypes fun type => logCall (reflectionBody cfg type (.d0Prompts type) truncated sourceIds profileId 0)

def auditMetaType (type : MetaMemoryType) (sourceDepth targetDepth profileId : Nat) : Audit := do
  let uncondensed ← await (.uncondensedMetas profileId type sourceDepth)
  if uncondensed.length < cfg.metaCondensationThreshold then return (0, [])
  else
    let maxTokens := metaMaxTokens cfg targetDepth
    let truncated := truncateToTokens (entriesText (uncondensed.map metaLine)) (maxTokens * 4)
    logCall (condensationBody type (getPromptForDepth targetDepth type) truncated (uncondensed.map (·.id)) profileId targetDepth
      (confidenceFloor uncondensed) maxTokens)

def auditMeta (sourceDepth targetDepth profileId : Nat) : Audit :=
  forSumLogged allTypes fun type => auditMetaType cfg type sourceDepth targetDepth profileId

def logDepth (pass : Audit) : Audit := pass.bind fun r => return (r.1, .depth r.1 (rowsIn r.2) :: r.2)

def auditDepths (profileId : Nat) : List Nat → Audit
  | [] => return (0, [])
  | depth :: depths => (logDepth (auditMeta cfg (depth - 1) depth profileId)).andThen fun created =>
    if created = 0 then return (0, [])
    else (auditDepths profileId depths).andThen fun more => return (created + more, [])

def auditProfile (profileId : Nat) : Audit :=
  (auditD0 cfg numberText profileId).andThen fun generated =>
    (auditDepths cfg profileId (depths cfg)).andThen fun condensed =>
      if cfg.contradictionCascade then do
        let _ ← runContradictionCascade cfg profileId
        return (generated + condensed, [])
      else return (generated + condensed, [])

/-- `run`. -/
def audit : Audit :=
  if !cfg.enabled then return (0, [])
  else do
    let profiles ← await .profileIds
    (forSumLogged profiles (auditProfile cfg numberText)).andThen fun totalCreated => do
      let now ← await .now
      await (.setLastReflection now)
      return (totalCreated, [])

/-! ## Without its log -/

theorem forget_logCall (body : Script Nat) : (logCall body).forget = body.attempt fun _ => return 0 :=
  forget_guarded ..

/-- An operation that is not logged. -/
theorem forget_bind {α : Type} (p : Script α) (f : α → Audit) : (p.bind f).forget = p.bind fun a => (f a).forget :=
  bind_assoc ..

theorem forget_auditD0 (profileId : Nat) : (auditD0 cfg numberText profileId).forget = generateD0 cfg numberText profileId := by
  refine (forget_bind ..).trans (congrArg _ (funext fun stateRow => ?_))
  refine (forget_bind ..).trans (congrArg _ (funext fun recentEntries => ?_))
  split
  · rfl
  · exact forget_forSumLogged (fun type => forget_logCall _) allTypes

theorem forget_auditMetaType (type : MetaMemoryType) (sourceDepth targetDepth profileId : Nat) :
    (auditMetaType cfg type sourceDepth targetDepth profileId).forget =
      condenseMetaType cfg type sourceDepth targetDepth profileId := by
  refine (forget_bind ..).trans (congrArg _ (funext fun uncondensed => ?_))
  split
  · rfl
  · exact forget_logCall _

theorem forget_auditMeta (sourceDepth targetDepth profileId : Nat) :
    (auditMeta cfg sourceDepth targetDepth profileId).forget = condenseMeta cfg sourceDepth targetDepth profileId :=
  forget_forSumLogged (fun type => forget_auditMetaType cfg type sourceDepth targetDepth profileId) allTypes

theorem forget_logDepth (pass : Audit) : (logDepth pass).forget = pass.forget := bind_assoc ..

theorem forget_auditDepths (profileId : Nat) (depths : List Nat) :
    (auditDepths cfg profileId depths).forget = condenseDepths cfg profileId depths := by
  induction depths with
  | nil => rfl
  | cons depth depths ih =>
    refine (forget_andThen ..).trans ?_
    rw [forget_logDepth, forget_auditMeta]
    refine congrArg _ (funext fun created => ?_)
    split
    · rfl
    · refine (forget_andThen ..).trans ?_
      rw [ih]
      rfl

theorem forget_auditProfile (profileId : Nat) :
    (auditProfile cfg numberText profileId).forget = runForProfile cfg numberText profileId := by
  refine (forget_andThen ..).trans ?_
  rw [forget_auditD0]
  refine congrArg _ (funext fun generated => ?_)
  refine (forget_andThen ..).trans ?_
  rw [forget_auditDepths]
  refine congrArg _ (funext fun condensed => ?_)
  split
  · exact forget_bind ..
  · rfl

theorem audit_forgets : (audit cfg numberText).forget = Reflection.run cfg numberText := by
  unfold audit Reflection.run
  split
  · rfl
  · refine (forget_bind ..).trans (congrArg _ (funext fun profiles => ?_))
    refine (forget_andThen ..).trans ?_
    rw [forget_forSumLogged (forget_auditProfile cfg numberText)]
    rfl

end Audit

/-! ## One call -/

variable {S : Type} (svc : Service Op Ans S)

/-- What the program returns is what it has inserted. -/
def Counts (p : Script Nat) : Prop :=
  ∀ s tr n t, play svc p s tr = some (.ret n, t) → n = inserted tr

/-- It inserts nothing. -/
abbrev Quiet {α : Type} (p : Script α) : Prop := p.Uses fun o => o.inserts = false

theorem quiet_await {o : Op} (h : o.inserts = false) : Quiet (await o) := uses_perform h

variable {svc}

theorem inserted_quiet {α : Type} {p q : Script α} {s t : S} {tr : List (Did Op Ans)} (hp : Quiet p)
    (h : play svc p s tr = some (q, t)) : inserted tr = 0 :=
  count_uses hp h

theorem counts_zero : Counts svc (.ret 0) := by
  intro s tr n t h
  obtain ⟨rfl, hn, -⟩ := play_ret h
  cases hn
  rfl

theorem counts_quiet {α : Type} {p : Script α} (hp : Quiet p) {f : α → Script Nat} (hf : ∀ a, Counts svc (f a)) :
    Counts svc (p.bind f) := by
  intro s tr n t h
  obtain ⟨tr₁, tr₂, a, u, rfl, h1, h2⟩ := play_bind_ret h
  rw [inserted_append, inserted_quiet hp h1, Nat.zero_add]
  exact hf a u tr₂ n t h2

theorem counts_forSum {β : Type} {f : β → Script Nat} (hf : ∀ x, Counts svc (f x)) (xs : List β) : Counts svc (forSum xs f) := by
  induction xs with
  | nil => exact counts_zero
  | cons x xs ih =>
    intro s tr n t h
    obtain ⟨tr₁, tr₂, a, u, rfl, h1, h2⟩ := play_bind_ret h
    obtain ⟨tr₃, tr₄, b, v, rfl, h3, h4⟩ := play_bind_ret h2
    obtain ⟨rfl, hn, -⟩ := play_ret h4
    obtain rfl := Prog.ret.inj hn
    rw [List.append_nil, inserted_append, ← hf x s tr₁ a u h1, ← ih u tr₃ b v h3]

theorem storeMeta_inserts {content : Json} {type : MetaMemoryType} {confidence : Option ℚ} {depth profileId id : Nat}
    {s t : S} {tr : List (Did Op Ans)}
    (h : play svc (storeMeta content type confidence depth profileId) s tr = some (.ret id, t)) :
    inserted tr = 1 := by
  obtain ⟨now, u, tr, rfl, -, h⟩ := play_perform_ret h
  split at h
  · rcases play_op rfl h with ⟨a, v, tr, rfl, -, hp⟩ | ⟨tr, rfl, hp⟩ | ⟨a, v, tr, rfl, -, hp⟩
    · obtain ⟨rfl, -, -⟩ := play_ret hp
      rfl
    · cases (play_throw hp).2.1
    · cases (play_throw hp).2.1
  · cases (play_throw h).2.1
  · cases (play_throw h).2.1

/-- A row and its links. -/
theorem counts_stored {content : Json} {type : MetaMemoryType} {confidence : Option ℚ} {depth profileId : Nat}
    {link : Nat → Script Unit} (hlink : ∀ id, Quiet (link id)) :
    Counts svc ((storeMeta content type confidence depth profileId).bind fun id => (link id).bind fun _ => .ret 1) := by
  intro s tr n t h
  obtain ⟨tr₁, tr₂, id, u, rfl, h1, h2⟩ := play_bind_ret h
  obtain ⟨tr₃, tr₄, linked, v, rfl, h3, h4⟩ := play_bind_ret h2
  obtain ⟨rfl, hn, -⟩ := play_ret h4
  obtain rfl := Prog.ret.inj hn
  rw [List.append_nil, inserted_append, storeMeta_inserts h1, inserted_quiet (hlink id) h3]

theorem adjusts_quiet (o : Op) (h : o.adjusts) : o.inserts = false := by
  cases o <;> first | rfl | cases h

theorem counts_reflectOne (cfg : ReflectionConfig) (type : MetaMemoryType) (sourceIds : List Nat) (profileId depth : Nat)
    (reflection : Json) : Counts svc (reflectOne cfg type sourceIds profileId depth reflection) := by
  refine counts_quiet (uses_reflectionContent reflection) fun content? => ?_
  split
  · exact counts_zero
  refine counts_quiet (uses_numberOrHalf _) fun confidence => counts_quiet (quiet_await rfl) fun _ => ?_
  refine counts_quiet ((uses_adjustNearest type profileId depth).mono adjusts_quiet) fun duplicate => ?_
  split
  · exact counts_zero
  · exact counts_stored fun id => uses_forEach fun _ _ => quiet_await rfl

theorem counts_condenseOne (type : MetaMemoryType) (childIds : List Nat) (profileId depth : Nat) (floor : ℚ) (reflection : Json) :
    Counts svc (condenseOne type childIds profileId depth floor reflection) := by
  refine counts_quiet (uses_reflectionContent reflection) fun content? => ?_
  split
  · exact counts_zero
  refine counts_quiet (uses_numberOrHalf _) fun confidence => counts_quiet (quiet_await rfl) fun _ => ?_
  exact counts_stored fun id => uses_forEach fun _ _ => quiet_await rfl

theorem counts_body {content : JsString} {maxTokens : Nat} {prompt : Prompt} {f : Json → Script Nat}
    (hf : ∀ x, Counts svc (f x)) :
    Counts svc ((await (.summarize content maxTokens prompt)).bind fun result =>
      (parseReflections result).bind fun reflections => forSum reflections f) := by
  refine counts_quiet (quiet_await rfl) fun result => ?_
  exact counts_quiet (uses_parseReflections result) fun reflections => counts_forSum hf reflections

/-! ## The log of a run -/

@[simp] theorem rowsIn_append (l l' : List LogEntry) : rowsIn (l ++ l') = rowsIn l + rowsIn l' := by simp [rowsIn]

@[simp] theorem lostIn_append (l l' : List LogEntry) : lostIn (l ++ l') = lostIn l + lostIn l' := by simp [lostIn]

theorem lostIn_eq_zero {log : List LogEntry} : lostIn log = 0 ↔ ∀ rows, .call true rows ∈ log → rows = 0 := by
  rw [lostIn, List.sum_eq_zero_iff_forall_eq_nat]
  constructor
  · intro h rows hmem
    exact h _ (List.mem_map_of_mem hmem)
  · intro h k hk
    obtain ⟨entry, hentry, rfl⟩ := List.mem_map.mp hk
    cases entry with
    | depth => rfl
    | call failed rows =>
      cases failed with
      | false => rfl
      | true => exact h rows hentry

/-- No depth has more new rows than it returned and its calls lost. -/
def DepthsCovered (log : List LogEntry) : Prop := ∀ created rows, .depth created rows ∈ log → rows ≤ created + lostIn log

variable (svc) in
/-- The log has the rows of the trace, and what is returned beyond `before` are those that are not lost. -/
def Accounts (before : Nat) (p : Audit) : Prop :=
  ∀ s tr n log t, play svc p s tr = some (.ret (n, log), t) →
    rowsIn log = inserted tr ∧ n + lostIn log = before + rowsIn log ∧ DepthsCovered log

theorem accounts_ret (n : Nat) : Accounts svc n (.ret (n, [])) := by
  intro s tr m log t h
  obtain ⟨rfl, hr, -⟩ := play_ret h
  obtain ⟨rfl, rfl⟩ := Prod.mk.inj (Prog.ret.inj hr)
  exact ⟨rfl, rfl, nofun⟩

theorem accounts_quiet {before : Nat} {α : Type} {p : Script α} (hp : Quiet p) {f : α → Audit}
    (hf : ∀ a, Accounts svc before (f a)) : Accounts svc before (p.bind f) := by
  intro s tr n log t h
  obtain ⟨tr₁, tr₂, a, u, rfl, h1, h2⟩ := play_bind_ret h
  rw [inserted_append, inserted_quiet hp h1, Nat.zero_add]
  exact hf a u tr₂ n log t h2

theorem accounts_andThen {before : Nat} {p : Audit} {f : Nat → Audit} (hp : Accounts svc 0 p)
    (hf : ∀ n, Accounts svc (before + n) (f n)) : Accounts svc before (p.andThen f) := by
  intro s tr n log t h
  obtain ⟨tr₁, tr₂, a, log₁, log₂, u, rfl, rfl, h1, h2⟩ := play_andThen h
  obtain ⟨hrows₁, hsum₁, hdepths₁⟩ := hp s tr₁ a log₁ u h1
  obtain ⟨hrows₂, hsum₂, hdepths₂⟩ := hf a u tr₂ n log₂ t h2
  refine ⟨?_, ?_, ?_⟩
  · rw [rowsIn_append, inserted_append, hrows₁, hrows₂]
  · rw [rowsIn_append, lostIn_append]
    omega
  · intro created rows hmem
    rw [lostIn_append]
    rcases List.mem_append.mp hmem with hmem | hmem
    · have := hdepths₁ created rows hmem
      omega
    · have := hdepths₂ created rows hmem
      omega

theorem accounts_forSumLogged {β : Type} {f : β → Audit} (hf : ∀ x, Accounts svc 0 (f x)) (xs : List β) :
    Accounts svc 0 (forSumLogged xs f) := by
  induction xs with
  | nil => exact accounts_ret 0
  | cons x xs ih =>
    refine accounts_andThen (hf x) fun n => accounts_andThen ih fun m => ?_
    rw [Nat.zero_add]
    exact accounts_ret (n + m)

theorem accounts_logCall {body : Script Nat} (h : Counts svc body) : Accounts svc 0 (logCall body) := by
  intro s tr n log t hplay
  rcases play_guarded hplay with ⟨rfl, hret⟩ | ⟨rfl, rfl⟩
  · obtain rfl := h s tr n t hret
    exact ⟨by simp [rowsIn, LogEntry.rows, inserted],
      by simp [rowsIn, lostIn, LogEntry.rows, LogEntry.lost, inserted], by simp [DepthsCovered]⟩
  · exact ⟨by simp [rowsIn, LogEntry.rows, inserted],
      by simp [rowsIn, lostIn, LogEntry.rows, LogEntry.lost], by simp [DepthsCovered]⟩

theorem accounts_logDepth {pass : Audit} (h : Accounts svc 0 pass) : Accounts svc 0 (logDepth pass) := by
  intro s tr n log t hplay
  obtain ⟨tr₁, tr₂, r, u, rfl, h1, h2⟩ := play_bind_ret hplay
  obtain ⟨rfl, hr, rfl⟩ := play_ret h2
  obtain ⟨hn, hlog⟩ := Prod.mk.inj (Prog.ret.inj hr)
  obtain ⟨hrows, hsum, hdepths⟩ := h s tr₁ r.1 r.2 _ h1
  have hrows' : rowsIn log = rowsIn r.2 := by simp [hlog, rowsIn, LogEntry.rows]
  have hlost' : lostIn log = lostIn r.2 := by simp [hlog, lostIn, LogEntry.lost]
  rw [List.append_nil, hn]
  refine ⟨hrows'.trans hrows, by omega, ?_⟩
  intro created rows hmem
  rw [hlost']
  rw [hlog] at hmem
  rcases List.mem_cons.mp hmem with heq | hmem
  · cases heq
    omega
  · exact hdepths created rows hmem

section Run

variable (cfg : ReflectionConfig) (numberText : ℚ → JsString)

theorem auditD0_accounts (profileId : Nat) : Accounts svc 0 (auditD0 cfg numberText profileId) := by
  refine accounts_quiet (quiet_await rfl) fun stateRow => ?_
  refine accounts_quiet (quiet_await rfl) fun recentEntries => ?_
  split
  · exact accounts_ret 0
  · exact accounts_forSumLogged (fun type => accounts_logCall (counts_body (counts_reflectOne cfg type _ profileId 0))) _

theorem auditMeta_accounts (sourceDepth targetDepth profileId : Nat) :
    Accounts svc 0 (auditMeta cfg sourceDepth targetDepth profileId) := by
  refine accounts_forSumLogged (fun type => ?_) _
  refine accounts_quiet (quiet_await rfl) fun uncondensed => ?_
  split
  · exact accounts_ret 0
  · exact accounts_logCall (counts_body (counts_condenseOne type _ profileId targetDepth _))

theorem auditDepths_accounts (profileId : Nat) (depths : List Nat) : Accounts svc 0 (auditDepths cfg profileId depths) := by
  induction depths with
  | nil => exact accounts_ret 0
  | cons depth depths ih =>
    refine accounts_andThen (accounts_logDepth (auditMeta_accounts cfg (depth - 1) depth profileId)) fun created => ?_
    rw [Nat.zero_add]
    split
    · rename_i hzero
      rw [hzero]
      exact accounts_ret 0
    · exact accounts_andThen ih fun more => accounts_ret (created + more)

theorem cascades_quiet (o : Op) (h : o.cascades) : o.inserts = false := by
  cases o <;> first | rfl | cases h

theorem auditProfile_accounts (profileId : Nat) : Accounts svc 0 (auditProfile cfg numberText profileId) := by
  refine accounts_andThen (auditD0_accounts cfg numberText profileId) fun generated => ?_
  refine accounts_andThen (auditDepths_accounts cfg profileId (depths cfg)) fun condensed => ?_
  rw [Nat.zero_add]
  split
  · exact accounts_quiet ((uses_runContradictionCascade cfg profileId).mono cascades_quiet) fun _ => accounts_ret _
  · exact accounts_ret _

theorem audit_accounts : Accounts svc 0 (audit cfg numberText) := by
  unfold audit
  split
  · exact accounts_ret 0
  · refine accounts_quiet (quiet_await rfl) fun profiles => ?_
    refine accounts_andThen (accounts_forSumLogged (auditProfile_accounts cfg numberText) profiles) fun totalCreated => ?_
    rw [Nat.zero_add]
    refine accounts_quiet (quiet_await rfl) fun now => ?_
    exact accounts_quiet (quiet_await rfl) fun _ => accounts_ret _

/-- The log of a trace of the run. -/
def logOf (svc : Service Op Ans S) (s : S) (tr : List (Did Op Ans)) : List LogEntry :=
  match play svc (audit cfg numberText) s tr with
  | some (.ret (_, log), _) => log
  | _ => []

theorem logOf_accounts {s t : S} {tr : List (Did Op Ans)} {n : Nat}
    (h : play svc (Reflection.run cfg numberText) s tr = some (.ret n, t)) :
    rowsIn (logOf cfg numberText svc s tr) = inserted tr ∧
      n + lostIn (logOf cfg numberText svc s tr) = rowsIn (logOf cfg numberText svc s tr) ∧
      DepthsCovered (logOf cfg numberText svc s tr) := by
  rw [← audit_forgets] at h
  obtain ⟨log, hlog⟩ := play_forget h
  have heq : logOf cfg numberText svc s tr = log := by rw [logOf, hlog]
  obtain ⟨hrows, hsum, hdepths⟩ := audit_accounts cfg numberText s tr n log t hlog
  rw [heq]
  exact ⟨hrows, by omega, hdepths⟩

/-- Of every trace: the number is that of the rows, and no depth with new rows is taken for an
    empty one, if and only if no call fails after it has inserted a row. -/
theorem reflection_counts (svc : Service Op Ans S) {s t : S} {tr : List (Did Op Ans)} {n : Nat}
    (h : play svc (Reflection.run cfg numberText) s tr = some (.ret n, t)) :
    (n = inserted tr ∧ ∀ created rows, .depth created rows ∈ logOf cfg numberText svc s tr → created = 0 → rows = 0) ↔
      ∀ rows, .call true rows ∈ logOf cfg numberText svc s tr → rows = 0 := by
  obtain ⟨hrows, hsum, hdepths⟩ := logOf_accounts cfg numberText h
  rw [← lostIn_eq_zero]
  constructor
  · intro ⟨hn, _⟩
    omega
  · intro hlost
    refine ⟨by omega, ?_⟩
    intro created rows hmem hzero
    have hcovered := hdepths created rows hmem
    omega

theorem reflects_metas {o : Op} (h : o.reflects) (t : Tables) (a : Ans o) :
    (effect o t a).metas.length = t.metas.length + o.inserts.toNat := by
  cases o
  case insertMeta row => rfl
  case setConfidence metaId confidence => exact List.length_map _
  all_goals first | rfl | cases h

/-- A run alone adds the rows of its trace to the table. -/
theorem reflection_adds {s t : Db} {tr : List (Did Op Ans)} {q : Script Nat}
    (h : play service (Reflection.run cfg numberText) s tr = some (q, t)) : t.metas.length = s.metas.length + inserted tr := by
  have hsize : ∀ o : Op, o.reflects → ∀ (s : Db) a (t : Db), service.exec o s a = some t →
      t.metas.length = s.metas.length + o.inserts.toNat := by
    intro o ho s a t hx
    rw [(exec_spec hx).2]
    exact reflects_metas ho s.toTables a
  exact play_count hsize (uses_reflection cfg numberText) h

end Run

/-! ## Concrete runs -/

def isReturn (n : Nat) : Script Nat → Bool
  | .ret m => m == n
  | _ => false

theorem isReturn_eq {n : Nat} {q : Script Nat} (h : isReturn n q = true) : q = .ret n := by
  cases q with
  | ret m => exact congrArg _ (beq_iff_eq.mp h)
  | throw e => cases h
  | op o k err => cases h

/-- The trace of a run alone with nothing refused. -/
def reflectionTrace (provider : Provider) (s : Db) : List (Did Op Ans) :=
  succeed service (fun o t => provider.answer o t.toTables) 60 (Reflection.run smallConfig.reflection smallConfig.numberText) s

def reflected (provider : Provider) (s : Db) : Option (Script Nat × Db) :=
  play service (Reflection.run smallConfig.reflection smallConfig.numberText) s (reflectionTrace provider s)

def reflectionLog (provider : Provider) (s : Db) : List LogEntry :=
  logOf smallConfig.reflection smallConfig.numberText service s (reflectionTrace provider s)

/-- Two insights, and one in the two. -/
theorem a_run_counts_three : ∃ x t, Reach (world smallConfig).system Free x ∧ reflected musing x.db = some (.ret 3, t) ∧
    inserted (reflectionTrace musing x.db) = 3 := by
  obtain ⟨x, hx, hp⟩ := reach_any (M := (world smallConfig).system) (C := Free)
    (P := fun x => decide (lostIn (reflectionLog musing x.db) = 0) && (reflected musing x.db).any fun (q, _) => isReturn 3 q)
    (played twoEntries) (meets_free _ _) (by decide +kernel)
  obtain ⟨hlost, hend⟩ := (Bool.and_eq_true ..).mp hp
  obtain ⟨⟨q, t⟩, hplay, hret⟩ := (Option.any_eq_true _ _).mp hend
  obtain rfl := isReturn_eq hret
  have hcounts := (reflection_counts smallConfig.reflection smallConfig.numberText service hplay).mpr
    (lostIn_eq_zero.mp (of_decide_eq_true hlost))
  exact ⟨x, t, hx, hplay, hcounts.1.symm⟩

/-- A model that finds two insights in the entries, and in the two one it stores and one whose
    confidence the CHECK refuses. -/
def wavering : Provider where
  text
    | .d0Prompts .insight => "[\x7b\"content\": \"x\"\x7d, \x7b\"content\": \"y\"\x7d]"
    | .d1Prompts .insight => "[\x7b\"content\": \"z\"\x7d, \x7b\"content\": \"w\", \"confidence\": \"high\"\x7d]"
    | _ => "[]"
  similarity := 0

/-- Three rows and the number 2, and depth 1 is left as one without data. -/
theorem a_row_is_not_counted : ∃ x t, Reach (world smallConfig).system Free x ∧ reflected wavering x.db = some (.ret 2, t) ∧
    inserted (reflectionTrace wavering x.db) = 3 ∧ LogEntry.depth 0 1 ∈ reflectionLog wavering x.db := by
  obtain ⟨x, hx, hp⟩ := reach_any (M := (world smallConfig).system) (C := Free)
    (P := fun x => decide (inserted (reflectionTrace wavering x.db) = 3 ∧ LogEntry.depth 0 1 ∈ reflectionLog wavering x.db) &&
      (reflected wavering x.db).any fun (q, _) => isReturn 2 q)
    (played twoEntries) (meets_free _ _) (by decide +kernel)
  obtain ⟨hrows, hend⟩ := (Bool.and_eq_true ..).mp hp
  obtain ⟨⟨q, t⟩, hplay, hret⟩ := (Option.any_eq_true _ _).mp hend
  obtain rfl := isReturn_eq hret
  exact ⟨x, t, hx, hplay, of_decide_eq_true hrows⟩

end FlowHelm.Memory
