/-
  FlowHelm.Agent.Sessions — session-manager.ts: the rows of `agent_sessions`, one for a chat, and
  for how long one is handed out.

  An operation is one statement, run at the time `Date.now()` gave (in milliseconds).

  - `active_within_expiry`: no session is handed out later than `sessionHardExpiry` after its
    `created_at` just if no row is saved again once it is older than a millisecond, and none
    is touched so late that `idleTimeout` reaches past that bound.
  - `a_busy_chat_outlives_its_expiry`: a chat that is saved again before it expires.
-/
import Mathlib.Data.List.AList
import FlowHelm.Lib.Js
import FlowHelm.Lib.Runs

namespace FlowHelm.Agent.Sessions

open Runs Js

/-- `session_files`: paths with their contents. -/
abbrev SessionFiles := List (JsString × JsString)

structure AgentSession where
  sessionId : String
  sessionFiles : SessionFiles
  lastAssistantUuid : Option String
  messageCount : Nat
  createdAt : Nat
  updatedAt : Nat
  expiresAt : Nat
  deriving DecidableEq, Repr

/-- The rows, under their primary key `chat_id`. -/
abbrev Table := AList fun _ : String => AgentSession

/-- What config/schema.ts admits. -/
structure SessionConfig where
  idleTimeout : Nat
  sessionHardExpiry : Nat
  atLeast : 60000 ≤ sessionHardExpiry

structure SaveOptions where
  lastAssistantUuid : Option String
  messageCount : Option Nat
  deriving DecidableEq, Repr

/-! ## The operations -/

def getActiveSession (t : Table) (now : Nat) (chatId : String) : Option AgentSession :=
  (t.lookup chatId).filter fun row => decide (now < row.expiresAt)

/-- The UPSERT: a row that is there keeps its `created_at`. -/
def saveSession (config : SessionConfig) (t : Table) (now : Nat) (chatId sessionId : String) (sessionFiles : SessionFiles)
    (options : SaveOptions) : Table :=
  let createdAt := match t.lookup chatId with
    | some row => row.createdAt
    | none => now
  t.insert chatId ⟨sessionId, sessionFiles, options.lastAssistantUuid, options.messageCount.getD 1, createdAt, now,
    now + config.sessionHardExpiry⟩

def touchSession (config : SessionConfig) (t : Table) (now : Nat) (chatId : String) : Table := match t.lookup chatId with
  | some row => t.insert chatId { row with updatedAt := now, expiresAt := now + config.idleTimeout }
  | none => t

/-- The sessions that are left, and how many were deleted. -/
def cleanupExpired (t : Table) (now : Nat) : Table × Nat :=
  let left := t.entries.filter fun row => decide (now < row.2.expiresAt)
  (⟨left, t.nodupKeys.sublist List.filter_sublist⟩, t.entries.length - left.length)

theorem lookup_cleanupExpired (t : Table) (now : Nat) (chatId : String) :
    (cleanupExpired t now).1.lookup chatId = getActiveSession t now chatId := by
  ext row
  unfold getActiveSession
  rw [Option.filter_eq_some_iff]
  show row ∈ (cleanupExpired t now).1.lookup chatId ↔ row ∈ t.lookup chatId ∧ _
  rw [AList.mem_lookup_iff, AList.mem_lookup_iff]
  exact List.mem_filter

/-! ## Runs -/

structure St where
  sessions : Table
  now : Nat
  /-- What `getActiveSession` has handed out, and when. -/
  returned : List (Nat × AgentSession)

inductive Ev where
  | save (now : Nat) (chatId sessionId : String) (sessionFiles : SessionFiles) (options : SaveOptions)
  | touch (now : Nat) (chatId : String)
  | get (now : Nat) (chatId : String)
  | cleanup (now : Nat)

def Ev.time : Ev → Nat
  | .save now .. => now
  | .touch now _ => now
  | .get now _ => now
  | .cleanup now => now

def run (config : SessionConfig) (s : St) : Ev → St
  | .save now chatId sessionId sessionFiles options =>
    { s with sessions := saveSession config s.sessions now chatId sessionId sessionFiles options, now := now }
  | .touch now chatId => { s with sessions := touchSession config s.sessions now chatId, now := now }
  | .get now chatId =>
    { s with now := now, returned := ((getActiveSession s.sessions now chatId).map (now, ·)).toList ++ s.returned }
  | .cleanup now => { s with sessions := (cleanupExpired s.sessions now).1, now := now }

/-- Times do not decrease. -/
def step (config : SessionConfig) (s : St) (e : Ev) : Option St := if s.now ≤ e.time then some (run config s e) else none

def manager (config : SessionConfig) : System St Ev := ⟨⟨∅, 0, []⟩, step config⟩

/-! ## Hard expiry -/

def Bounded (config : SessionConfig) (s : St) : Prop := ∀ r ∈ s.returned, r.1 ≤ r.2.createdAt + config.sessionHardExpiry

def Early (config : SessionConfig) (s : St) : Ev → Prop
  | .save now chatId .. => ∀ row, s.sessions.lookup chatId = some row → now ≤ row.createdAt + 1
  | .touch now chatId => ∀ row, s.sessions.lookup chatId = some row →
    config.idleTimeout = 0 ∨ now + config.idleTimeout ≤ row.createdAt + config.sessionHardExpiry + 1
  | _ => True

/-- Each row is over in time, or is over. -/
def Expires (config : SessionConfig) (s : St) : Prop := ∀ chatId row, s.sessions.lookup chatId = some row →
  row.expiresAt ≤ row.createdAt + config.sessionHardExpiry + 1 ∨ row.expiresAt ≤ s.now

theorem getActive_some {t : Table} {now : Nat} {chatId : String} {row : AgentSession}
    (h : getActiveSession t now chatId = some row) : t.lookup chatId = some row ∧ now < row.expiresAt := by
  obtain ⟨hrow, hnow⟩ := Option.filter_eq_some_iff.mp h
  exact ⟨hrow, of_decide_eq_true hnow⟩

theorem lookup_insert_some {t : Table} {a b : String} {new row : AgentSession} (h : (t.insert a new).lookup b = some row) :
    (b = a ∧ row = new) ∨ t.lookup b = some row := by
  by_cases hab : b = a
  · rw [hab, AList.lookup_insert] at h
    exact .inl ⟨hab, (Option.some.inj h).symm⟩
  · rw [AList.lookup_insert_ne hab] at h
    exact .inr h

theorem expires_run {config : SessionConfig} {s : St} {e : Ev} (h : Expires config s) (he : Early config s e)
    (htime : s.now ≤ e.time) : Expires config (run config s e) := by
  -- what was over before is over later
  have hold : ∀ chatId row, s.sessions.lookup chatId = some row →
      row.expiresAt ≤ row.createdAt + config.sessionHardExpiry + 1 ∨ row.expiresAt ≤ e.time := by
    intro chatId row hrow
    rcases h chatId row hrow with hle | hle
    · exact .inl hle
    · exact .inr (by omega)
  cases e with
  | save now chatId sessionId sessionFiles options =>
    intro chat row hrow
    have hrow : (saveSession config s.sessions now chatId sessionId sessionFiles options).lookup chat = some row := hrow
    unfold saveSession at hrow
    rcases lookup_insert_some hrow with ⟨-, rfl⟩ | hrow
    · left
      show now + config.sessionHardExpiry ≤ _
      cases hlookup : s.sessions.lookup chatId with
      | some old =>
        have hnow := he old hlookup
        show now + config.sessionHardExpiry ≤ old.createdAt + config.sessionHardExpiry + 1
        omega
      | none =>
        show now + config.sessionHardExpiry ≤ now + config.sessionHardExpiry + 1
        omega
    · exact hold chat row hrow
  | touch now chatId =>
    intro chat row hrow
    have hrow : (touchSession config s.sessions now chatId).lookup chat = some row := hrow
    unfold touchSession at hrow
    cases hlookup : s.sessions.lookup chatId with
    | some old =>
      simp only [hlookup] at hrow
      rcases lookup_insert_some hrow with ⟨-, rfl⟩ | hrow
      · show now + config.idleTimeout ≤ old.createdAt + config.sessionHardExpiry + 1 ∨ now + config.idleTimeout ≤ now
        rcases he old hlookup with hzero | hle
        · exact .inr (by omega)
        · exact .inl hle
      · exact hold chat row hrow
    | none =>
      simp only [hlookup] at hrow
      exact hold chat row hrow
  | get now chatId => exact hold
  | cleanup now =>
    intro chat row hrow
    have hactive := (lookup_cleanupExpired s.sessions now chat).symm.trans hrow
    exact hold chat row (getActive_some hactive).1

theorem bounded_run {config : SessionConfig} {s : St} {e : Ev} (h : Bounded config s) (hexpires : Expires config s)
    (htime : s.now ≤ e.time) : Bounded config (run config s e) := by
  cases e with
  | save now chatId sessionId sessionFiles options => exact h
  | touch now chatId => exact h
  | get now chatId =>
    intro r hr
    rcases List.mem_append.mp hr with hr | hr
    · obtain ⟨row, hrow, rfl⟩ := Option.map_eq_some_iff.mp (Option.mem_toList.mp hr)
      obtain ⟨hlookup, hlt⟩ := getActive_some hrow
      have hnow : s.now ≤ now := htime
      show now ≤ row.createdAt + config.sessionHardExpiry
      rcases hexpires chatId row hlookup with hle | hle
      · omega
      · omega
    · exact h r hr
  | cleanup now => exact h

theorem step_some {config : SessionConfig} {s t : St} {e : Ev} (h : step config s e = some t) :
    s.now ≤ e.time ∧ t = run config s e := by
  unfold step at h
  split at h
  · exact ⟨‹_›, (Option.some.inj h).symm⟩
  · cases h

theorem bounded {config : SessionConfig} {s : St} (h : Reach (manager config) (Early config) s) :
    Bounded config s ∧ Expires config s := by
  refine h.inv (I := fun s => Bounded config s ∧ Expires config s) ?_ ?_
  · refine ⟨List.forall_mem_nil _, fun chatId row hrow => ?_⟩
    cases hrow
  · intro s e t _ hs he hst
    obtain ⟨htime, rfl⟩ := step_some hst
    exact ⟨bounded_run hs.1 hs.2 htime, expires_run hs.2 he htime⟩

/-! ## What outlives its expiry -/

/-- A row that expires too late is handed out too late. -/
theorem outlives {config : SessionConfig} {s : St} {chatId : String} {row : AgentSession}
    (hrow : s.sessions.lookup chatId = some row) (hnow : s.now < row.expiresAt)
    (hlate : row.createdAt + config.sessionHardExpiry + 1 < row.expiresAt) :
    ∃ u, Path (manager config) s u ∧ ¬Bounded config u := by
  have hle : s.now ≤ (Ev.get (row.expiresAt - 1) chatId).time := by
    show s.now ≤ row.expiresAt - 1
    omega
  refine ⟨_, .single (.get (row.expiresAt - 1) chatId) (if_pos hle), fun hbounded => ?_⟩
  have hactive : getActiveSession s.sessions (row.expiresAt - 1) chatId = some row := by
    refine Option.filter_eq_some_iff.mpr ⟨hrow, decide_eq_true ?_⟩
    omega
  have hmem : (row.expiresAt - 1, row) ∈ (run config s (.get (row.expiresAt - 1) chatId)).returned := by
    refine List.mem_append_left _ (Option.mem_toList.mpr ?_)
    rw [hactive]
    rfl
  have hbound : row.expiresAt - 1 ≤ row.createdAt + config.sessionHardExpiry := hbounded _ hmem
  omega

theorem late_outlives {config : SessionConfig} {s t : St} {e : Ev} (hst : (manager config).step s e = some t)
    (he : ¬Early config s e) : ∃ u, Path (manager config) t u ∧ ¬Bounded config u := by
  obtain ⟨htime, rfl⟩ := step_some hst
  have hexpiry := config.atLeast
  cases e with
  | save now chatId sessionId sessionFiles options =>
    obtain ⟨old, hold, hlate⟩ : ∃ old, s.sessions.lookup chatId = some old ∧ ¬now ≤ old.createdAt + 1 := by
      simpa only [Early, not_forall, exists_prop] using he
    have hrow : (saveSession config s.sessions now chatId sessionId sessionFiles options).lookup chatId =
        some ⟨sessionId, sessionFiles, options.lastAssistantUuid, options.messageCount.getD 1, old.createdAt, now,
          now + config.sessionHardExpiry⟩ := by
      unfold saveSession
      rw [AList.lookup_insert, hold]
    refine outlives (s := run config s _) hrow ?_ ?_
    · show now < now + config.sessionHardExpiry
      omega
    · show old.createdAt + config.sessionHardExpiry + 1 < now + config.sessionHardExpiry
      omega
  | touch now chatId =>
    obtain ⟨old, hold, hlate⟩ : ∃ old, s.sessions.lookup chatId = some old ∧ ¬(config.idleTimeout = 0 ∨
        now + config.idleTimeout ≤ old.createdAt + config.sessionHardExpiry + 1) := by
      simpa only [Early, not_forall, exists_prop] using he
    obtain ⟨hidle, hlate⟩ := not_or.mp hlate
    have hrow : (touchSession config s.sessions now chatId).lookup chatId =
        some { old with updatedAt := now, expiresAt := now + config.idleTimeout } := by
      unfold touchSession
      rw [hold]
      exact AList.lookup_insert _
    refine outlives (s := run config s _) hrow ?_ ?_
    · show now < now + config.idleTimeout
      omega
    · show old.createdAt + config.sessionHardExpiry + 1 < now + config.idleTimeout
      omega
  | get now chatId => exact absurd trivial he
  | cleanup now => exact absurd trivial he

/-- Early runs hand out no session too late; from any other step a run can. -/
theorem active_within_expiry (config : SessionConfig) :
    (∀ s, Reach (manager config) (Early config) s → Bounded config s) ∧
      ∀ s e t, (manager config).step s e = some t → ¬Early config s e → ∃ u, Path (manager config) t u ∧ ¬Bounded config u :=
  ⟨fun _ h => (bounded h).1, fun _ _ _ => late_outlives⟩

/-- The defaults: 60 minutes and 24 hours. -/
def defaults : SessionConfig := ⟨3600000, 86400000, by decide⟩

/-- A message after 20 hours, and a cold start after 30. -/
theorem a_busy_chat_outlives_its_expiry : ∃ s, Reach (manager defaults) Free s ∧ ¬Bounded defaults s := by
  obtain ⟨s, hs, hp⟩ := reach_any (M := manager defaults) (C := fun _ _ => True)
    (P := fun s => s.returned.any fun r => decide (r.2.createdAt + defaults.sessionHardExpiry < r.1))
    [.save 0 "a" "s" [] ⟨none, some 1⟩, .save 72000000 "a" "s" [] ⟨none, some 2⟩, .get 108000000 "a"] (by decide)
    (by decide)
  refine ⟨s, hs, fun hbounded => ?_⟩
  obtain ⟨r, hr, hlate⟩ := List.any_eq_true.mp hp
  have hle := hbounded r hr
  have hlt := of_decide_eq_true hlate
  omega

end FlowHelm.Agent.Sessions
