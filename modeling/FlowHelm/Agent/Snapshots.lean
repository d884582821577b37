/-
  FlowHelm.Agent.Snapshots — the session backups of WarmContainerRuntime: each completed
  `execute` starts one and does not wait for it.

  A backup lists the session files of the container, reads them one after another, then the
  global config, and upserts the row of its chat with the container's message count of then.
  Backups of one chat run side by side; each answer of the container and of the database
  comes when it comes. A turn is a completed `execute` with the backup it started.

  - `snapshots_go_forward`: the row is the latest turn's, where each turn has a session and
    files, and no backup is stored behind one of a later turn.
  - `an_older_backup_comes_last`: two messages of one chat.
-/
import FlowHelm.Agent.SessionFiles

namespace FlowHelm.Agent.Snapshots

open Runs Js Sessions SessionFiles

structure Container where
  chatId : String
  messageCount : Nat
  deriving DecidableEq, Repr

/-- Where asyncBackupSession stands. -/
inductive Phase where
  /-- There is no session id. -/
  | skipped
  | listing
  /-- The paths left to read, and what was read. -/
  | reading (files : List JsString) (sessionFiles : SessionFiles)
  | saving (sessionFiles : SessionFiles) (messageCount now : Nat)
  /-- No session files were found. -/
  | empty
  | saved (sessionFiles : SessionFiles) (messageCount : Nat)
  /-- The error is logged. -/
  | failed
  deriving DecidableEq, Repr

def Phase.finished : Phase → Bool
  | skipped | empty | saved .. => true
  | _ => false

def Phase.isSaved : Phase → Bool
  | saved .. => true
  | _ => false

/-- What was read, where only the config is left to read. -/
def Phase.atConfig : Phase → Option SessionFiles
  | reading [] sessionFiles => some sessionFiles
  | _ => none

structure Turn where
  chatId : String
  container : Nat
  sessionId : String
  /-- The container's, when the turn was completed. -/
  messageCount : Nat
  phase : Phase
  deriving DecidableEq, Repr

structure St where
  containers : List Container
  /-- In the order of their completion. -/
  turns : List Turn
  sessions : Table

inductive Ev where
  | created (chatId : String)
  /-- The agent's answer was parsed. -/
  | answered (container : Nat) (sessionId : String)
  | listed (turn : Nat) (stdout : Option JsString)
  | read (turn : Nat) (stdout : Option JsString)
  | configRead (turn now : Nat) (stdout : Option JsString)
  /-- The database's answer. -/
  | stored (turn : Nat) (ok : Bool)

/-! ## Steps -/

def answer (s : St) (k : Nat) (c : Container) (sessionId : String) : St :=
  { s with
    containers := s.containers.set k { c with messageCount := c.messageCount + 1 }
    turns := s.turns ++ [⟨c.chatId, k, sessionId, c.messageCount + 1, if sessionId = "" then .skipped else .listing⟩] }

def move (s : St) (i : Nat) (turn : Turn) (phase : Phase) : St :=
  { s with turns := s.turns.set i { turn with phase := phase } }

def messageCount (s : St) (turn : Turn) : Nat := match s.containers[turn.container]? with
  | some c => c.messageCount
  | none => 0

def store (config : SessionConfig) (s : St) (turn : Turn) (sessionFiles : SessionFiles) (messageCount now : Nat) : St :=
  { s with
    sessions := saveSession config s.sessions now turn.chatId turn.sessionId sessionFiles ⟨none, some messageCount⟩ }

def step (config : SessionConfig) (s : St) : Ev → Option St
  | .created chatId => some { s with containers := s.containers ++ [⟨chatId, 0⟩] }
  | .answered k sessionId => (s.containers[k]?).map (answer s k · sessionId)
  | .listed i stdout => (s.turns[i]?).bind fun turn => match turn.phase with
    | .listing => some <| move s i turn <| match stdout with
      | some stdout => .reading (toRead stdout) []
      | none => .failed
    | _ => none
  | .read i stdout => (s.turns[i]?).bind fun turn => match turn.phase with
    | .reading (absPath :: files) sessionFiles => some (move s i turn (.reading files (addFile sessionFiles absPath stdout)))
    | _ => none
  | .configRead i now stdout => (s.turns[i]?).bind fun turn => match turn.phase with
    | .reading [] sessionFiles => some <| move s i turn <|
        if addConfig sessionFiles stdout = [] then .empty
        else .saving (addConfig sessionFiles stdout) (messageCount s turn) now
    | _ => none
  | .stored i ok => (s.turns[i]?).bind fun turn => match turn.phase with
    | .saving sessionFiles messageCount now =>
      some (if ok then move (store config s turn sessionFiles messageCount now) i turn (.saved sessionFiles messageCount)
        else move s i turn .failed)
    | _ => none

def runtime (config : SessionConfig) : System St Ev := ⟨⟨[], [], ∅⟩, step config⟩

/-- What a step can do. -/
inductive Next (config : SessionConfig) (s : St) : Ev → St → Prop
  | created (chatId : String) : Next config s (.created chatId) { s with containers := s.containers ++ [⟨chatId, 0⟩] }
  | answered {k : Nat} {c : Container} (sessionId : String) : s.containers[k]? = some c →
      Next config s (.answered k sessionId) (answer s k c sessionId)
  /-- A backup that is not at its end goes on, or fails. -/
  | goesOn {i : Nat} {turn : Turn} {e : Ev} {phase : Phase} : s.turns[i]? = some turn → turn.phase.finished = false →
      (phase = .failed ∨ ∃ files sessionFiles, phase = .reading files sessionFiles) → Next config s e (move s i turn phase)
  | configRead {i : Nat} {turn : Turn} {sessionFiles : SessionFiles} (now : Nat) (stdout : Option JsString) :
      s.turns[i]? = some turn → turn.phase = .reading [] sessionFiles →
      Next config s (.configRead i now stdout) (move s i turn
        (if addConfig sessionFiles stdout = [] then .empty
          else .saving (addConfig sessionFiles stdout) (messageCount s turn) now))
  | stored {i : Nat} {turn : Turn} {sessionFiles : SessionFiles} {messageCount now : Nat} : s.turns[i]? = some turn →
      turn.phase = .saving sessionFiles messageCount now →
      Next config s (.stored i true)
        (move (store config s turn sessionFiles messageCount now) i turn (.saved sessionFiles messageCount))

theorem step_next {config : SessionConfig} {s t : St} {e : Ev} (h : step config s e = some t) : Next config s e t := by
  cases e with
  | created chatId =>
    obtain rfl := Option.some.inj h
    exact .created chatId
  | answered k sessionId =>
    obtain ⟨c, hc, rfl⟩ := Option.map_eq_some_iff.mp h
    exact .answered sessionId hc
  | listed i stdout =>
    obtain ⟨turn, hturn, h⟩ := Option.bind_eq_some_iff.mp h
    split at h
    · rename_i hphase
      obtain rfl := Option.some.inj h
      refine .goesOn hturn (by rw [hphase]; rfl) ?_
      cases stdout with
      | some stdout => exact .inr ⟨_, _, rfl⟩
      | none => exact .inl rfl
    · cases h
  | read i stdout =>
    obtain ⟨turn, hturn, h⟩ := Option.bind_eq_some_iff.mp h
    split at h
    · rename_i hphase
      obtain rfl := Option.some.inj h
      exact .goesOn hturn (by rw [hphase]; rfl) (.inr ⟨_, _, rfl⟩)
    · cases h
  | configRead i now stdout =>
    obtain ⟨turn, hturn, h⟩ := Option.bind_eq_some_iff.mp h
    split at h
    · rename_i hphase
      obtain rfl := Option.some.inj h
      exact .configRead now stdout hturn hphase
    · cases h
  | stored i ok =>
    obtain ⟨turn, hturn, h⟩ := Option.bind_eq_some_iff.mp h
    split at h
    · rename_i hphase
      obtain rfl := Option.some.inj h
      cases ok with
      | true => exact .stored hturn hphase
      | false => exact .goesOn hturn (by rw [hphase]; rfl) (.inl rfl)
    · cases h

/-! ## The latest turn of a chat -/

def Latest (turns : List Turn) (i : Nat) (t : Turn) : Prop :=
  turns[i]? = some t ∧ ∀ j u, i < j → turns[j]? = some u → u.chatId ≠ t.chatId

instance (turns : List Turn) (i : Nat) (t : Turn) : Decidable (Latest turns i t) :=
  decidable_of_iff (turns[i]? = some t ∧ ∀ j < turns.length, i < j → ∀ u ∈ turns[j]?, u.chatId ≠ t.chatId) <|
    and_congr_right fun _ => ⟨fun h j u hlt hu => h j (List.getElem?_eq_some_iff.mp hu).1 hlt u hu,
      fun h j _ hlt u hu => h j u hlt hu⟩

/-- Once all backups of a chat are finished without an error, its row is what the latest
    turn's backup has read. -/
def Forward (s : St) : Prop := ∀ i t, Latest s.turns i t →
  (∀ u ∈ s.turns, u.chatId = t.chatId → u.phase.finished = true) →
  ∃ row sessionFiles, s.sessions.lookup t.chatId = some row ∧ t.phase = .saved sessionFiles t.messageCount ∧
    row.sessionId = t.sessionId ∧ row.sessionFiles = sessionFiles ∧ row.messageCount = t.messageCount

/-- The answer has a session id, the latest turn's backup finds files, and none is stored
    behind the latest turn's. -/
def InOrder (s : St) : Ev → Prop
  | .answered _ sessionId => sessionId ≠ ""
  | .configRead i _ stdout => ∀ turn ∈ s.turns[i]?, Latest s.turns i turn → ∀ sessionFiles ∈ turn.phase.atConfig,
    addConfig sessionFiles stdout ≠ []
  | .stored i true => ∀ turn ∈ s.turns[i]?, ∀ j < s.turns.length, ∀ t ∈ s.turns[j]?, Latest s.turns j t →
    t.chatId = turn.chatId → t.phase.isSaved = false
  | _ => True

instance (s : St) : ∀ e, Decidable (InOrder s e)
  | .created _ | .listed _ _ | .read _ _ | .stored _ false => inferInstanceAs (Decidable True)
  | .answered _ sessionId => inferInstanceAs (Decidable (sessionId ≠ ""))
  | .configRead i _ stdout => inferInstanceAs (Decidable (∀ turn ∈ s.turns[i]?, Latest s.turns i turn →
      ∀ sessionFiles ∈ turn.phase.atConfig, addConfig sessionFiles stdout ≠ []))
  | .stored i true => inferInstanceAs (Decidable (∀ turn ∈ s.turns[i]?, ∀ j < s.turns.length, ∀ t ∈ s.turns[j]?,
      Latest s.turns j t → t.chatId = turn.chatId → t.phase.isSaved = false))

theorem latest_set {turns : List Turn} {i : Nat} {turn : Turn} {phase : Phase} (hi : turns[i]? = some turn) {j : Nat} {t : Turn}
    (h : Latest (turns.set i { turn with phase := phase }) j t) :
    (j = i ∧ t = { turn with phase := phase } ∧ Latest turns i turn) ∨ (j ≠ i ∧ Latest turns j t) := by
  have hget : ∀ k, (turns.set i { turn with phase := phase })[k]? =
      if k = i then some { turn with phase := phase } else turns[k]? := by
    intro k
    by_cases hk : k = i
    · have hlen : i < turns.length := (List.getElem?_eq_some_iff.mp hi).1
      rw [hk, List.getElem?_set_self hlen, if_pos rfl]
    · rw [List.getElem?_set_ne (fun heq => hk heq.symm), if_neg hk]
  obtain ⟨hj, hlater⟩ := h
  rw [hget] at hj
  -- the turns behind `j` have the chats they had
  have hbehind : ∀ k u, j < k → turns[k]? = some u → u.chatId ≠ t.chatId := by
    intro k u hlt hu
    by_cases hk : k = i
    · have hchat := hlater k _ hlt ((hget k).trans (if_pos hk))
      rw [hk, hi] at hu
      exact Option.some.inj hu ▸ hchat
    · exact hlater k u hlt ((hget k).trans ((if_neg hk).trans hu))
  by_cases hji : j = i
  · rw [if_pos hji] at hj
    obtain rfl := Option.some.inj hj
    exact .inl ⟨hji, rfl, hi, hji ▸ hbehind⟩
  · rw [if_neg hji] at hj
    exact .inr ⟨hji, hj, hbehind⟩

theorem latest_append {turns : List Turn} {new : Turn} {i : Nat} {t : Turn} (h : Latest (turns ++ [new]) i t) :
    (i = turns.length ∧ t = new) ∨ (t.chatId ≠ new.chatId ∧ Latest turns i t) := by
  obtain ⟨hi, hlater⟩ := h
  by_cases hlen : i < turns.length
  · rw [List.getElem?_append_left hlen] at hi
    have hnew : (turns ++ [new])[turns.length]? = some new := by simp
    refine .inr ⟨fun heq => hlater _ new hlen hnew heq.symm, hi, fun j u hlt hu => hlater j u hlt ?_⟩
    rw [List.getElem?_append_left (List.getElem?_eq_some_iff.mp hu).1]
    exact hu
  · have hlast : i = turns.length := by
      have hbound := (List.getElem?_eq_some_iff.mp hi).1
      simp only [List.length_append, List.length_singleton] at hbound
      omega
    rw [hlast, List.getElem?_append_right (Nat.le_refl _)] at hi
    exact .inl ⟨hlast, by simpa using hi.symm⟩

/-! ## Runs in order -/

/-- What a turn's backup has got, where it is the latest of its chat. -/
def Current (sessions : Table) (t : Turn) : Prop := match t.phase with
  | .skipped | .empty => False
  | .saving _ messageCount _ => messageCount = t.messageCount
  | .saved sessionFiles messageCount => messageCount = t.messageCount ∧ ∃ row, sessions.lookup t.chatId = some row ∧
    row.sessionId = t.sessionId ∧ row.sessionFiles = sessionFiles ∧ row.messageCount = messageCount
  | _ => True

structure Inv (s : St) : Prop where
  container : ∀ (i : Nat) (t : Turn), s.turns[i]? = some t →
    ∃ c : Container, s.containers[t.container]? = some c ∧ c.chatId = t.chatId
  count : ∀ i t, Latest s.turns i t → messageCount s t = t.messageCount
  current : ∀ i t, Latest s.turns i t → Current s.sessions t

/-- Rows of other chats and backups that are not over do not matter. -/
theorem current_of_sessions {sessions sessions' : Table} {t : Turn} (h : Current sessions t)
    (hrow : t.phase.isSaved = true → sessions'.lookup t.chatId = sessions.lookup t.chatId) : Current sessions' t := by
  unfold Current at h ⊢
  cases hphase : t.phase with
  | saved sessionFiles messageCount =>
    rw [hphase] at h hrow
    rw [hrow rfl]
    exact h
  | _ => rw [hphase] at h; exact h

theorem messageCount_of_container {s : St} {t : Turn} {c : Container} (h : s.containers[t.container]? = some c) :
    messageCount s t = c.messageCount := by
  unfold messageCount
  rw [h]

theorem inv_created {s : St} (hi : Inv s) (chatId : String) : Inv { s with containers := s.containers ++ [⟨chatId, 0⟩] } := by
  have hkept : ∀ {k : Nat} {c : Container}, s.containers[k]? = some c → (s.containers ++ [⟨chatId, 0⟩])[k]? = some c := by
    intro k c hc
    rw [List.getElem?_append_left (List.getElem?_eq_some_iff.mp hc).1]
    exact hc
  refine ⟨fun i t ht => ?_, fun i t ht => ?_, hi.current⟩
  · obtain ⟨c, hc, hchat⟩ := hi.container i t ht
    exact ⟨c, hkept hc, hchat⟩
  · obtain ⟨c, hc, -⟩ := hi.container i t ht.1
    rw [messageCount_of_container (hkept hc), ← messageCount_of_container hc]
    exact hi.count i t ht

theorem inv_answered {s : St} (hi : Inv s) {k : Nat} {c : Container} {sessionId : String} (hc : s.containers[k]? = some c)
    (hsession : sessionId ≠ "") : Inv (answer s k c sessionId) := by
  have hlen : k < s.containers.length := (List.getElem?_eq_some_iff.mp hc).1
  have hself : (answer s k c sessionId).containers[k]? = some { c with messageCount := c.messageCount + 1 } :=
    List.getElem?_set_self hlen
  have hother : ∀ {j : Nat}, j ≠ k → (answer s k c sessionId).containers[j]? = s.containers[j]? :=
    fun hj => List.getElem?_set_ne fun heq => hj heq.symm
  refine ⟨fun i t ht => ?_, fun i t ht => ?_, fun i t ht => ?_⟩
  · have hcontainer : ∀ {t : Turn} {d : Container}, s.containers[t.container]? = some d → d.chatId = t.chatId →
        ∃ d, (answer s k c sessionId).containers[t.container]? = some d ∧ d.chatId = t.chatId := by
      intro t d hd hchat
      by_cases hk : t.container = k
      · rw [hk] at hd ⊢
        rw [hc] at hd
        obtain rfl := Option.some.inj hd
        exact ⟨_, hself, hchat⟩
      · exact ⟨d, (hother hk).trans hd, hchat⟩
    rcases List.mem_append.mp (List.mem_of_getElem? ht) with hmem | hmem
    · obtain ⟨j, hj⟩ := List.mem_iff_getElem?.mp hmem
      obtain ⟨d, hd, hchat⟩ := hi.container j t hj
      exact hcontainer hd hchat
    · obtain rfl := List.mem_singleton.mp hmem
      exact ⟨_, hself, rfl⟩
  · rcases latest_append ht with ⟨-, rfl⟩ | ⟨hchat, ht⟩
    · exact messageCount_of_container (s := answer s k c sessionId) (t := ⟨c.chatId, k, sessionId, _, _⟩) hself
    · obtain ⟨d, hd, hdchat⟩ := hi.container i t ht.1
      -- the container answered serves another chat
      have hk : t.container ≠ k := by
        intro heq
        rw [heq, hc] at hd
        exact hchat (hdchat.symm.trans (congrArg Container.chatId (Option.some.inj hd).symm))
      rw [messageCount_of_container ((hother hk).trans hd), ← messageCount_of_container hd]
      exact hi.count i t ht
  · rcases latest_append ht with ⟨-, rfl⟩ | ⟨-, ht⟩
    · unfold Current
      rw [if_neg hsession]
      trivial
    · exact hi.current i t ht

/-- One backup goes on; the row it may have written is given by `sessions`. -/
theorem inv_move {s : St} (hi : Inv s) {i : Nat} {turn : Turn} {phase : Phase} {sessions : Table}
    (hturn : s.turns[i]? = some turn)
    (hself : Latest s.turns i turn → Current sessions { turn with phase := phase })
    (hother : ∀ j t, j ≠ i → Latest s.turns j t → Current sessions t) :
    Inv (move { s with sessions := sessions } i turn phase) := by
  refine ⟨fun j t ht => ?_, fun j t ht => ?_, fun j t ht => ?_⟩
  · by_cases hj : j = i
    · have hlen : i < s.turns.length := (List.getElem?_eq_some_iff.mp hturn).1
      subst hj
      have heq : some t = some { turn with phase := phase } := ht.symm.trans (List.getElem?_set_self hlen)
      obtain rfl := Option.some.inj heq
      exact hi.container _ turn hturn
    · have hold : s.turns[j]? = some t := (List.getElem?_set_ne fun heq => hj heq.symm).symm.trans ht
      exact hi.container j t hold
  · rcases latest_set hturn ht with ⟨-, rfl, hlatest⟩ | ⟨-, hlatest⟩
    · exact hi.count i turn hlatest
    · exact hi.count j t hlatest
  · rcases latest_set hturn ht with ⟨-, rfl, hlatest⟩ | ⟨hj, hlatest⟩
    · exact hself hlatest
    · exact hother j t hj hlatest

theorem inv_stored {config : SessionConfig} {s : St} (hi : Inv s) {i : Nat} {turn : Turn} {sessionFiles : SessionFiles}
    {count now : Nat} (hturn : s.turns[i]? = some turn) (hphase : turn.phase = .saving sessionFiles count now)
    (horder : ∀ j t, Latest s.turns j t → t.chatId = turn.chatId → t.phase.isSaved = false) :
    Inv (move (store config s turn sessionFiles count now) i turn (.saved sessionFiles count)) := by
  refine inv_move hi hturn (fun hlatest => ?_) fun j t hj hlatest => ?_
  · have hcurrent := hi.current i turn hlatest
    unfold Current at hcurrent
    rw [hphase] at hcurrent
    exact ⟨hcurrent, _, AList.lookup_insert _, rfl, rfl, rfl⟩
  · refine current_of_sessions (hi.current j t hlatest) fun hsaved => ?_
    refine AList.lookup_insert_ne fun hchat => ?_
    rw [horder j t hlatest hchat] at hsaved
    cases hsaved

theorem inv_next {config : SessionConfig} {s t : St} {e : Ev} (hi : Inv s) (he : InOrder s e) (hn : Next config s e t) :
    Inv t := by
  cases hn with
  | created chatId => exact inv_created hi chatId
  | answered sessionId hc => exact inv_answered hi hc he
  | goesOn hturn hunfinished hphase =>
    refine inv_move hi hturn (fun hlatest => ?_) fun j t _ hlatest => hi.current j t hlatest
    rcases hphase with rfl | ⟨files, sessionFiles, rfl⟩
    · trivial
    · trivial
  | configRead now stdout hturn hphase =>
    refine inv_move hi hturn (fun hlatest => ?_) fun j t _ hlatest => hi.current j t hlatest
    have hconfig := he _ hturn hlatest _ (by rw [hphase]; rfl)
    rw [if_neg hconfig]
    exact hi.count _ _ hlatest
  | stored hturn hphase =>
    refine inv_stored hi hturn hphase fun j t hlatest hchat => ?_
    exact he _ hturn j (List.getElem?_eq_some_iff.mp hlatest.1).1 t hlatest.1 hlatest hchat

theorem inv {config : SessionConfig} {s : St} (h : Reach (runtime config) InOrder s) : Inv s := by
  refine h.inv ?_ fun s e t _ hi he hst => inv_next hi he (step_next hst)
  refine ⟨fun i t ht => ?_, fun i t ht => ?_, fun i t ht => ?_⟩
  · cases ht
  · cases ht.1
  · cases ht.1

theorem Inv.forward {s : St} (hi : Inv s) : Forward s := by
  intro i t hlatest hfinished
  have hcurrent := hi.current i t hlatest
  have hlast := hfinished t (List.mem_of_getElem? hlatest.1) rfl
  unfold Current at hcurrent
  cases hphase : t.phase with
  | saved sessionFiles count =>
    rw [hphase] at hcurrent
    obtain ⟨rfl, row, hrow, hsession, hfiles, hcount⟩ := hcurrent
    exact ⟨row, sessionFiles, hrow, rfl, hsession, hfiles, hcount⟩
  | skipped | empty => rw [hphase] at hcurrent; exact hcurrent.elim
  | listing | reading _ _ | saving _ _ _ | failed => rw [hphase] at hlast; cases hlast

/-- In every run in order, each chat's row is what the latest turn's backup has read. -/
theorem snapshots_go_forward (config : SessionConfig) (s : St) (h : Reach (runtime config) InOrder s) : Forward s :=
  (inv h).forward

/-- A session's transcript. -/
def transcript (content : String) : SessionFiles := [(ofString "projects/p/s.jsonl", ofString content)]

/-- Two messages of one chat, whose backups have read the transcript side by side. -/
def twoMessages : List Ev :=
  [.created "a", .answered 0 "s", .listed 0 (some (ofString "/home/flowhelm/.claude/projects/p/s.jsonl")),
    .read 0 (some (ofString "1")),
    .answered 0 "s", .listed 1 (some (ofString "/home/flowhelm/.claude/projects/p/s.jsonl")), .read 1 (some (ofString "2"))]

/-- The first backup is stored first. -/
theorem snapshots_in_order : ∃ s, Forward s ∧ s.turns.length = 2 ∧
    (s.sessions.lookup "a").map (·.sessionFiles) = some (transcript "2") := by
  obtain ⟨s, hs, hp⟩ := reach_any (M := runtime defaults) (C := InOrder)
    (P := fun s => s.turns.length == 2 && (s.sessions.lookup "a").map (·.sessionFiles) == some (transcript "2"))
    (twoMessages ++ [.configRead 0 1000 none, .stored 0 true, .configRead 1 1010 none, .stored 1 true]) (by decide)
    (by decide)
  obtain ⟨hturns, hrow⟩ := (Bool.and_eq_true ..).mp hp
  exact ⟨s, snapshots_go_forward defaults s hs, beq_iff_eq.mp hturns, beq_iff_eq.mp hrow⟩

/-- The first backup is stored behind the second. -/
theorem an_older_backup_comes_last : ∃ s, Reach (runtime defaults) Free s ∧ ¬Forward s := by
  obtain ⟨s, hs, hp⟩ := reach_any (M := runtime defaults) (C := fun _ _ => True)
    (P := fun s => s.turns == [⟨"a", 0, "s", 1, .saved (transcript "1") 2⟩, ⟨"a", 0, "s", 2, .saved (transcript "2") 2⟩] &&
      (s.sessions.lookup "a").map (·.sessionFiles) == some (transcript "1"))
    (twoMessages ++ [.configRead 1 1000 none, .stored 1 true, .configRead 0 1010 none, .stored 0 true]) (by decide)
    (by decide)
  refine ⟨s, hs, fun hforward => ?_⟩
  obtain ⟨hturns, hrow⟩ := (Bool.and_eq_true ..).mp hp
  have hturns := beq_iff_eq.mp hturns
  have hlatest : Latest s.turns 1 ⟨"a", 0, "s", 2, .saved (transcript "2") 2⟩ := by
    rw [hturns]
    decide
  have hfinished : ∀ u ∈ s.turns, u.chatId = "a" → u.phase.finished = true := by
    rw [hturns]
    decide
  obtain ⟨row, sessionFiles, hlookup, hphase, -, hfiles, -⟩ := hforward 1 _ hlatest hfinished
  rw [hlookup, Option.map_some] at hrow
  obtain ⟨rfl, -⟩ := Phase.saved.inj hphase
  have hold := Option.some.inj (beq_iff_eq.mp hrow)
  exact absurd (hfiles.symm.trans hold) (by decide)

end FlowHelm.Agent.Snapshots
