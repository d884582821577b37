/-
  FlowHelm.Channels.GmailTransport — the handlers of the Gmail transport, interleaved at their
  awaits, and the cache that keeps an email from being delivered twice.

  A handler runs to its next await in one step. What the API answers is in the event; an email
  is its id here, as the transport reads nothing else of it.

  - `proceed_cases`, `step_delivers`: what a handler does between two awaits.
  - `redelivered_after_maxCache`: an id is delivered again only after `maxCache` others.
-/
import FlowHelm.Channels.GmailWatch
import FlowHelm.Lib.FifoSet

namespace FlowHelm.Channels

open Js Runs

namespace GmailTransport

/-! ## The cache -/

def maxCache : Nat := 5000

structure Transport where
  historyId : JsString
  /-- The Set, in insertion order. -/
  processedIds : List JsString
  /-- What `onEmail` was called with, the newest first. -/
  delivered : List JsString
  deriving DecidableEq

/-- `Set.add`, then the oldest id goes if there are too many. -/
def trackId (processedIds : List JsString) (id : JsString) : List JsString :=
  let ids := if id ∈ processedIds then processedIds else processedIds ++ [id]
  if maxCache < ids.length then ids.tail else ids

def deliverEmail (t : Transport) (id : JsString) : Transport :=
  if id ∈ t.processedIds then t
  else { t with processedIds := trackId t.processedIds id, delivered := id :: t.delivered }

/-- An update that throws leaves the id. -/
def Transport.updateHistoryId (t : Transport) (historyId : JsString) : Transport :=
  { t with historyId := (GmailWatch.updateHistoryId t.historyId historyId).getD t.historyId }

/-! ## Handlers -/

structure HistoryRecord where
  id : JsString
  messagesAdded : Option (List JsString)
  deriving DecidableEq

structure HistoryResponse where
  history : Option (List HistoryRecord)
  nextPageToken : Option JsString
  deriving DecidableEq

/-- The messages a response names, in the order of the two loops. -/
def HistoryResponse.added (r : HistoryResponse) : List JsString :=
  (r.history.getD []).flatMap fun record => record.messagesAdded.getD []

/-- Whose loop it is, and what comes after it. -/
inductive Loop where
  | pubSub (historyId : JsString)
  | imap
  deriving DecidableEq

inductive Handler where
  /-- `listHistory` is awaited. -/
  | listingHistory (sinceHistoryId historyId : JsString)
  /-- `listMessages` is awaited. -/
  | listingMessages
  /-- `getMessage` is awaited; the loop goes on with `rest`. -/
  | fetching (id : JsString) (rest : List JsString) (loop : Loop)
  | done
  deriving DecidableEq

/-- What follows the loop. -/
def finish (t : Transport) : Loop → Transport
  | .pubSub historyId => t.updateHistoryId historyId
  | .imap => t

/-- A loop goes on to its next await. -/
def proceed (t : Transport) (loop : Loop) : List JsString → Transport × Handler
  | [] => (finish t loop, .done)
  | id :: rest => if id ∈ t.processedIds then proceed t loop rest else (t, .fetching id rest loop)

/-- What `getMessage` and `parseGmailMessage` come to. -/
inductive Fetched where
  | failed
  /-- An email, and whether `onEmail` returns. -/
  | parsed (id : JsString) (handled : Bool)
  deriving DecidableEq

/-- Where the loop is left by an error: the one over history records catches it. -/
def afterError (t : Transport) (loop : Loop) (rest : List JsString) : Transport × Handler := match loop with
  | .pubSub _ => proceed t loop rest
  | .imap => (t, .done)

/-- The answer to `getMessage`. `onEmail` is not called for an id in the cache. -/
def fetched (t : Transport) (loop : Loop) (rest : List JsString) : Fetched → Transport × Handler
  | .failed => afterError t loop rest
  | .parsed id handled =>
    if handled || decide (id ∈ t.processedIds) then proceed (deliverEmail t id) loop rest
    else afterError (deliverEmail t id) loop rest

/-! ## Runs -/

structure St where
  transport : Transport
  handlers : List Handler
  deriving DecidableEq

/-- `none` where a list call fails. -/
inductive Ev where
  | notification (emailAddress historyId : JsString)
  | newMail
  | listedHistory (i : Nat) (response : Option HistoryResponse)
  /-- The refs are absent when nothing is unread. -/
  | listedMessages (i : Nat) (response : Option (Option (List JsString)))
  | message (i : Nat) (answer : Fetched)

def St.resume (s : St) (i : Nat) (r : Transport × Handler) : St := ⟨r.1, s.handlers.set i r.2⟩

variable (emailAddress : JsString)

def step (s : St) : Ev → Option St
  | .notification address historyId =>
    if address ≠ emailAddress ∨ s.transport.historyId = [] then some s
    else some { s with handlers := s.handlers ++ [.listingHistory s.transport.historyId historyId] }
  | .newMail => some { s with handlers := s.handlers ++ [.listingMessages] }
  | .listedHistory i response => match s.handlers[i]? with
    | some (.listingHistory _ historyId) => some (s.resume i (match response with
      | none => (s.transport, .done)
      | some r => proceed s.transport (.pubSub historyId) r.added))
    | _ => none
  | .listedMessages i response => match s.handlers[i]? with
    | some .listingMessages => some (s.resume i (match response with
      | none | some none => (s.transport, .done)
      | some (some refs) => proceed s.transport .imap refs))
    | _ => none
  | .message i answer => match s.handlers[i]? with
    | some (.fetching _ rest loop) => some (s.resume i (fetched s.transport loop rest answer))
    | _ => none

/-- The transport after `connect`. -/
def transport (created : JsString) : System St Ev := ⟨⟨⟨created, [], []⟩, []⟩, step emailAddress⟩

/-! ## Between two awaits -/

variable {emailAddress}

@[simp] theorem finish_processedIds (t : Transport) (loop : Loop) : (finish t loop).processedIds = t.processedIds := by
  cases loop <;> rfl

@[simp] theorem finish_delivered (t : Transport) (loop : Loop) : (finish t loop).delivered = t.delivered := by
  cases loop <;> rfl

theorem proceed_cases (t : Transport) (loop : Loop) (queue : List JsString) :
    ((∀ id ∈ queue, id ∈ t.processedIds) ∧ proceed t loop queue = (finish t loop, .done)) ∨
      ∃ skipped id rest, queue = skipped ++ id :: rest ∧ (∀ id ∈ skipped, id ∈ t.processedIds) ∧ id ∉ t.processedIds ∧
        proceed t loop queue = (t, .fetching id rest loop) := by
  induction queue with
  | nil => exact .inl ⟨nofun, rfl⟩
  | cons id rest ih =>
    by_cases hid : id ∈ t.processedIds
    · simp only [proceed, if_pos hid]
      rcases ih with ⟨hall, hdone⟩ | ⟨skipped, id', rest', rfl, hskip, hnew, hfetch⟩
      · refine .inl ⟨fun x hx => ?_, hdone⟩
        rcases List.mem_cons.mp hx with rfl | hx
        · exact hid
        · exact hall x hx
      · refine .inr ⟨id :: skipped, id', rest', rfl, fun x hx => ?_, hnew, hfetch⟩
        rcases List.mem_cons.mp hx with rfl | hx
        · exact hid
        · exact hskip x hx
    · simp only [proceed, if_neg hid]
      exact .inr ⟨[], id, rest, rfl, nofun, hid, rfl⟩

/-- The transport is the same but for its historyId. -/
def Same (t u : Transport) : Prop := u.processedIds = t.processedIds ∧ u.delivered = t.delivered

theorem proceed_same (t : Transport) (loop : Loop) (queue : List JsString) : Same t (proceed t loop queue).1 := by
  rcases proceed_cases t loop queue with ⟨-, h⟩ | ⟨_, _, _, -, -, -, h⟩
  · rw [h]
    exact ⟨finish_processedIds t loop, finish_delivered t loop⟩
  · rw [h]
    exact ⟨rfl, rfl⟩

theorem afterError_same (t : Transport) (loop : Loop) (rest : List JsString) : Same t (afterError t loop rest).1 := by
  cases loop with
  | pubSub historyId => exact proceed_same ..
  | imap => exact ⟨rfl, rfl⟩

/-- One step delivers at most one email. -/
theorem step_delivers {s t : St} {e : Ev} (h : step emailAddress s e = some t) :
    Same s.transport t.transport ∨ ∃ id, Same (deliverEmail s.transport id) t.transport := by
  cases e with
  | notification address historyId =>
    simp only [step] at h
    split at h <;> obtain rfl := Option.some.inj h <;> exact .inl ⟨rfl, rfl⟩
  | newMail =>
    obtain rfl := Option.some.inj h
    exact .inl ⟨rfl, rfl⟩
  | listedHistory i response =>
    simp only [step] at h
    split at h
    · obtain rfl := Option.some.inj h
      left
      cases response with
      | none => exact ⟨rfl, rfl⟩
      | some r => exact proceed_same ..
    · cases h
  | listedMessages i response =>
    simp only [step] at h
    split at h
    · obtain rfl := Option.some.inj h
      left
      rcases response with _ | _ | refs
      · exact ⟨rfl, rfl⟩
      · exact ⟨rfl, rfl⟩
      · exact proceed_same ..
    · cases h
  | message i answer =>
    simp only [step] at h
    split at h
    · rename_i loop _
      obtain rfl := Option.some.inj h
      cases answer with
      | failed => exact .inl (afterError_same ..)
      | parsed id handled =>
        refine .inr ⟨id, ?_⟩
        simp only [St.resume, fetched]
        split
        · exact proceed_same ..
        · exact afterError_same ..
    · cases h

/-! ## No email twice -/

structure Deduplicated (t : Transport) : Prop where
  newest : FifoSet.Newest maxCache t.processedIds t.delivered
  spaced : FifoSet.Spaced maxCache t.delivered

theorem Deduplicated.same {t u : Transport} (h : Deduplicated t) (hsame : Same t u) : Deduplicated u := by
  obtain ⟨hids, hdelivered⟩ := hsame
  exact ⟨by rw [hids, hdelivered]; exact h.newest, by rw [hdelivered]; exact h.spaced⟩

theorem trackId_add (processedIds : List JsString) (id : JsString) :
    trackId processedIds id = FifoSet.add maxCache processedIds id := by
  unfold trackId FifoSet.add
  by_cases hid : id ∈ processedIds
  · simp only [if_pos hid]
  · simp only [if_neg hid]

theorem Deduplicated.deliver {t : Transport} (h : Deduplicated t) (id : JsString) : Deduplicated (deliverEmail t id) := by
  unfold deliverEmail
  by_cases hid : id ∈ t.processedIds
  · rw [if_pos hid]
    exact h
  · rw [if_neg hid]
    rw [trackId_add]
    exact ⟨FifoSet.newest_add h.newest hid, FifoSet.spaced_add h.newest h.spaced hid⟩

theorem deduplicated {created : JsString} {s : St} (h : Reach (transport emailAddress created) Free s) :
    Deduplicated s.transport := by
  have hinit : Deduplicated (transport emailAddress created).init.transport := ⟨.nil, FifoSet.spaced_nil⟩
  refine h.inv (I := fun s => Deduplicated s.transport) hinit fun s e t _ hs _ hstep => ?_
  rcases step_delivers hstep with hsame | ⟨id, hsame⟩
  · exact hs.same hsame
  · exact (hs.deliver id).same hsame

/-- An email is delivered again only after `maxCache` other ids, and the cache is bounded. -/
theorem redelivered_after_maxCache (emailAddress created : JsString) (s : St)
    (h : Reach (transport emailAddress created) Free s) :
    (∀ newer between older id, s.transport.delivered = newer ++ id :: (between ++ id :: older) → id ∉ between →
        maxCache ≤ between.toFinset.card) ∧
      s.transport.processedIds.length ≤ maxCache :=
  ⟨(deduplicated h).spaced, (deduplicated h).newest.length_le⟩

theorem an_unread_email_is_delivered : ∃ s, Reach (transport (ofString "me@gmail.com") (ofString "100")) Free s ∧
    s.transport.delivered = [ofString "19a"] ∧ s.transport.processedIds.length ≤ maxCache := by
  have hrun : ∃ s, Reach (transport (ofString "me@gmail.com") (ofString "100")) Free s ∧
      decide (s.transport.delivered = [ofString "19a"]) = true :=
    reach_any [.newMail, .newMail, .listedMessages 0 (some (some [ofString "19a"])),
      .listedMessages 1 (some (some [ofString "19a"])),
      .message 0 (.parsed (ofString "19a") true), .message 1 (.parsed (ofString "19a") true)] (meets_free ..) (by decide)
  obtain ⟨s, hs, hdelivered⟩ := hrun
  exact ⟨s, hs, of_decide_eq_true hdelivered, (redelivered_after_maxCache _ _ s hs).2⟩

end GmailTransport

end FlowHelm.Channels
