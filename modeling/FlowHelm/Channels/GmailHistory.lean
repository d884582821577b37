/-
  FlowHelm.Channels.GmailHistory — the Pub/Sub handlers against a mailbox, and what its history
  has behind the stored historyId.

  The mailbox's history grows, and a notification has an id that it has reached. The API answers
  `listHistory` with the first page of what came after the id asked for, as the mailbox was at
  some time since the notification's id, and `getMessage` with the message asked for.

  - `Covered`: every message up to an id is delivered, or still in a queue.
  - `history_is_delivered`: what the id has passed is delivered, as long as each list fits its
    first page and no fetch of an undelivered message fails.
  - `a_second_page_is_skipped`, `a_failed_fetch_is_passed`: runs that lose a message.
-/
import FlowHelm.Channels.GmailTransport

namespace FlowHelm.Channels

open Js Runs GmailTransport

namespace GmailHistory

/-! ## The mailbox -/

/-- A history record for the labels the transport asks for. -/
structure Record where
  id : Nat
  messagesAdded : Option (List JsString)
  deriving DecidableEq

def Record.added (r : Record) : List JsString := r.messagesAdded.getD []

structure Mailbox where
  /-- The mailbox's own id: it was here when the watch was created, or at the newest record. -/
  current : Nat
  records : List Record
  reached : ∀ r ∈ records, r.id ≤ current

def Mailbox.arrive (b : Mailbox) (r : Record) : Option Mailbox :=
  if h : b.current < r.id then
    some {
      current := r.id
      records := b.records ++ [r]
      reached := by
        intro r' hr'
        rcases List.mem_append.mp hr' with hr' | hr'
        · have := b.reached r' hr'
          omega
        · obtain rfl := List.mem_singleton.mp hr'
          exact le_refl _ }
  else none

/-- The records after `since` among the first `k`. -/
def Mailbox.after (b : Mailbox) (since : Int) (k : Nat) : List Record := (b.records.take k).filter fun r => decide (since < r.id)

def Record.json (r : Record) : HistoryRecord := ⟨ofString (toString r.id), r.messagesAdded⟩

/-- The first page of `records`: `limit` of them, and a token if there are more. -/
def page (records : List Record) (limit : Nat) (token : JsString) : HistoryResponse :=
  { history := if records = [] then none else some ((records.take limit).map Record.json)
    nextPageToken := if limit < records.length then some token else none }

/-! ## Runs -/

structure St where
  mailbox : Mailbox
  channel : GmailTransport.St

inductive Ev where
  | mail (r : Record)
  | notification (emailAddress historyId : JsString)
  | listed (i k limit : Nat) (token : JsString)
  | listFails (i : Nat)
  | message (i : Nat) (answer : Fetched)

variable (emailAddress : JsString)

def St.go (s : St) (e : GmailTransport.Ev) : Option St :=
  (GmailTransport.step emailAddress s.channel e).map fun c => { s with channel := c }

def step (s : St) : Ev → Option St
  | .mail r => (s.mailbox.arrive r).map fun b => { s with mailbox := b }
  | .notification address historyId =>
    if ∀ n ∈ bigInt historyId, n ≤ s.mailbox.current then s.go emailAddress (.notification address historyId) else none
  | .listed i k limit token => match s.channel.handlers[i]? with
    | some (.listingHistory sinceHistoryId historyId) => (bigInt sinceHistoryId).bind fun since =>
      -- the mailbox as it was at some time since the notification
      if ∀ n ∈ bigInt historyId, ∀ r ∈ s.mailbox.records.drop k, n < r.id then
        s.go emailAddress (.listedHistory i (some (page (s.mailbox.after since k) limit token)))
      else none
    | _ => none
  | .listFails i => s.go emailAddress (.listedHistory i none)
  | .message i answer => match s.channel.handlers[i]?, answer with
    | some (.fetching id _ _), .parsed id' _ => if id' = id then s.go emailAddress (.message i answer) else none
    | some (.fetching ..), .failed => s.go emailAddress (.message i answer)
    | _, _ => none

def gmail (created : JsString) : System St Ev :=
  ⟨⟨⟨((bigInt created).getD 0).toNat, [], nofun⟩, ⟨⟨created, [], []⟩, []⟩⟩, step emailAddress⟩

/-- What the stored id has passed is delivered. -/
def Sound (s : St) : Prop := ∀ n ∈ bigInt s.channel.transport.historyId, ∀ r ∈ s.mailbox.records, (r.id : Int) ≤ n →
  ∀ id ∈ r.added, id ∈ s.channel.transport.delivered

/-- All that was asked for is on a page of `limit`. -/
def Fits (b : Mailbox) (k limit : Nat) : Handler → Prop
  | .listingHistory sinceHistoryId _ => ∀ since ∈ bigInt sinceHistoryId, (b.after since k).length ≤ limit
  | _ => True

def Had (delivered : List JsString) : Handler → Prop
  | .fetching id _ _ => id ∈ delivered
  | _ => True

/-- A list fits its first page; a fetch fails only of what is delivered already. -/
def Complete (s : St) : Ev → Prop
  | .listed i k limit _ => ∀ h ∈ s.channel.handlers[i]?, Fits s.mailbox k limit h
  | .message i .failed => ∀ h ∈ s.channel.handlers[i]?, Had s.channel.transport.delivered h
  | _ => True

instance (b : Mailbox) (k limit : Nat) : ∀ h, Decidable (Fits b k limit h)
  | .listingHistory .. => inferInstanceAs (Decidable (∀ _ ∈ _, _ ≤ _))
  | .listingMessages | .fetching .. | .done => isTrue trivial

instance (delivered : List JsString) : ∀ h, Decidable (Had delivered h)
  | .fetching .. => inferInstanceAs (Decidable (_ ∈ _))
  | .listingHistory .. | .listingMessages | .done => isTrue trivial

instance (s : St) : ∀ e, Decidable (Complete s e)
  | .listed .. | .message _ .failed => inferInstanceAs (Decidable (∀ _ ∈ _, _))
  | .mail _ | .notification .. | .listFails _ | .message _ (.parsed ..) => isTrue trivial

/-! ## What is covered -/

/-- Every message up to `upto` is delivered or in the queue. -/
structure Covered (b : Mailbox) (delivered : List JsString) (upto : Int) (queue : List JsString) : Prop where
  reached : upto ≤ b.current
  queued : ∀ r ∈ b.records, (r.id : Int) ≤ upto → ∀ id ∈ r.added, id ∈ delivered ∨ id ∈ queue

variable {b : Mailbox} {delivered queue : List JsString} {upto : Int}

theorem Covered.mono (h : Covered b delivered upto queue) {more : List JsString} (hmore : ∀ id ∈ delivered, id ∈ more) :
    Covered b more upto queue :=
  ⟨h.reached, fun r hr hid id hin => (h.queued r hr hid id hin).imp_left (hmore id)⟩

/-- What was delivered may leave the queue. -/
theorem Covered.shorten (h : Covered b delivered upto queue) {rest : List JsString}
    (hrest : ∀ id ∈ queue, id ∈ delivered ∨ id ∈ rest) : Covered b delivered upto rest := by
  refine ⟨h.reached, fun r hr hid id hin => ?_⟩
  rcases h.queued r hr hid id hin with hdelivered | hqueued
  · exact .inl hdelivered
  · exact hrest id hqueued

theorem Covered.arrive (h : Covered b delivered upto queue) {r : Record} {b' : Mailbox} (hb : b.arrive r = some b') :
    Covered b' delivered upto queue := by
  unfold Mailbox.arrive at hb
  split at hb
  · rename_i hnew
    obtain rfl := Option.some.inj hb
    have hreached := h.reached
    refine ⟨by simp only; omega, fun r' hr' hid => ?_⟩
    rcases List.mem_append.mp hr' with hr' | hr'
    · exact h.queued r' hr' hid
    · obtain rfl := List.mem_singleton.mp hr'
      omega
  · cases hb

/-- A whole list puts all that came after `since` into the queue. -/
theorem Covered.listed {since : Int} (h : Covered b delivered since []) {k limit : Nat} {token : JsString}
    (hreached : upto ≤ b.current) (hseen : ∀ r ∈ b.records.drop k, upto < r.id)
    (hfits : (b.after since k).length ≤ limit) : Covered b delivered upto (page (b.after since k) limit token).added := by
  refine ⟨hreached, fun r hr hid id hin => ?_⟩
  by_cases hold : (r.id : Int) ≤ since
  · rcases h.queued r hr hold id hin with hdelivered | hqueued
    · exact .inl hdelivered
    · cases hqueued
  · right
    have hfirst : r ∈ b.records.take k := by
      rw [← List.take_append_drop k b.records] at hr
      rcases List.mem_append.mp hr with hr | hr
      · exact hr
      · have := hseen r hr
        omega
    have hafter : r ∈ b.after since k := List.mem_filter.mpr ⟨hfirst, decide_eq_true (by omega)⟩
    have hsome : b.after since k ≠ [] := List.ne_nil_of_mem hafter
    simp only [page, HistoryResponse.added, if_neg hsome, Option.getD_some, List.take_of_length_le hfits, List.mem_flatMap,
      List.mem_map]
    exact ⟨r.json, ⟨r, hafter, rfl⟩, hin⟩

/-! ## What is kept -/

/-- What a handler will pass is delivered or will be asked for. -/
def Working (b : Mailbox) (delivered : List JsString) : Handler → Prop
  | .listingHistory sinceHistoryId historyId =>
    (∀ n ∈ bigInt sinceHistoryId, Covered b delivered n []) ∧ ∀ m ∈ bigInt historyId, m ≤ b.current
  | .fetching id rest (.pubSub historyId) => ∀ m ∈ bigInt historyId, Covered b delivered m (id :: rest)
  | _ => True

structure InvAt (b : Mailbox) (t : Transport) (handlers : List Handler) : Prop where
  cached : ∀ id ∈ t.processedIds, id ∈ t.delivered
  held : ∀ n ∈ bigInt t.historyId, Covered b t.delivered n []
  working : ∀ h ∈ handlers, Working b t.delivered h

def Inv (s : St) : Prop := InvAt s.mailbox s.channel.transport s.channel.handlers

variable {t : Transport} {handlers : List Handler} {emailAddress : JsString}

theorem InvAt.sound {s : St} (h : Inv s) : Sound s := by
  intro n hn r hr hid id hin
  rcases (h.held n hn).queued r hr hid id hin with hdelivered | hqueued
  · exact hdelivered
  · cases hqueued

theorem Working.mono {h : Handler} (hw : Working b delivered h) {more : List JsString} (hmore : ∀ id ∈ delivered, id ∈ more) :
    Working b more h := by
  cases h with
  | listingHistory since historyId => exact ⟨fun n hn => (hw.1 n hn).mono hmore, hw.2⟩
  | fetching id rest loop =>
    cases loop with
    | pubSub historyId => exact fun m hm => (hw m hm).mono hmore
    | imap => trivial
  | _ => trivial

theorem Working.arrive {h : Handler} (hw : Working b delivered h) {r : Record} {b' : Mailbox} (hb : b.arrive r = some b') :
    Working b' delivered h := by
  have hgrows : b.current ≤ b'.current := by
    unfold Mailbox.arrive at hb
    split at hb
    · obtain rfl := Option.some.inj hb
      simp only
      omega
    · cases hb
  cases h with
  | listingHistory since historyId =>
    refine ⟨fun n hn => (hw.1 n hn).arrive hb, fun m hm => ?_⟩
    have := hw.2 m hm
    omega
  | fetching id rest loop =>
    cases loop with
    | pubSub historyId => exact fun m hm => (hw m hm).arrive hb
    | imap => trivial
  | _ => trivial

theorem deliverEmail_spec (hcached : ∀ id ∈ t.processedIds, id ∈ t.delivered) (id : JsString) :
    id ∈ (deliverEmail t id).delivered ∧ (∀ x ∈ t.delivered, x ∈ (deliverEmail t id).delivered) ∧
      (∀ x ∈ (deliverEmail t id).processedIds, x ∈ (deliverEmail t id).delivered) ∧
      (deliverEmail t id).historyId = t.historyId := by
  unfold deliverEmail
  by_cases hid : id ∈ t.processedIds
  · simp only [if_pos hid]
    exact ⟨hcached id hid, fun _ hx => hx, hcached, trivial⟩
  · simp only [if_neg hid]
    refine ⟨List.mem_cons_self .., fun _ hx => List.mem_cons_of_mem _ hx, fun x hx => ?_, trivial⟩
    have hmore : x ∈ t.processedIds ++ [id] := by
      simp only [trackId, if_neg hid] at hx
      split at hx
      · exact List.mem_of_mem_tail hx
      · exact hx
    rcases List.mem_append.mp hmore with hx | hx
    · exact List.mem_cons_of_mem _ (hcached x hx)
    · exact List.mem_cons.mpr (.inl (List.mem_singleton.mp hx))

/-- The id after an update is the one held or the one given. -/
theorem updateHistoryId_cases (held historyId : JsString) :
    (GmailWatch.updateHistoryId held historyId).getD held = held ∨
      (GmailWatch.updateHistoryId held historyId).getD held = historyId := by
  unfold GmailWatch.updateHistoryId
  by_cases hheld : held = []
  · simp [hheld]
  · rw [if_neg hheld]
    cases bigInt historyId with
    | none => exact .inl rfl
    | some new =>
      cases bigInt held with
      | none => exact .inl rfl
      | some old =>
        by_cases hlt : old < new
        · simp [hlt]
        · simp [hlt]

theorem InvAt.deliver (h : InvAt b t handlers) (id : JsString) : InvAt b (deliverEmail t id) handlers := by
  obtain ⟨-, hmore, hcached, hid⟩ := deliverEmail_spec h.cached id
  refine ⟨hcached, fun n hn => ?_, fun x hx => (h.working x hx).mono hmore⟩
  rw [hid] at hn
  exact (h.held n hn).mono hmore

theorem InvAt.set (h : InvAt b t handlers) (i : Nat) {x : Handler} (hx : Working b t.delivered x) :
    InvAt b t (handlers.set i x) := by
  refine ⟨h.cached, h.held, fun y hy => ?_⟩
  rcases List.mem_or_eq_of_mem_set hy with hold | rfl
  · exact h.working y hold
  · exact hx

/-- A loop whose queue covers its notification goes on. -/
theorem InvAt.proceed (h : InvAt b t handlers) {historyId : JsString} {queue : List JsString}
    (hqueue : ∀ m ∈ bigInt historyId, Covered b t.delivered m queue) (i : Nat) :
    InvAt b (GmailTransport.proceed t (.pubSub historyId) queue).1
      (handlers.set i (GmailTransport.proceed t (.pubSub historyId) queue).2) := by
  rcases proceed_cases t (.pubSub historyId) queue with ⟨hall, hdone⟩ | ⟨skipped, id, rest, rfl, hskip, -, hfetch⟩
  · rw [hdone]
    have hfinished : InvAt b (finish t (.pubSub historyId)) handlers := by
      refine ⟨h.cached, fun n hn => ?_, h.working⟩
      simp only [finish, Transport.updateHistoryId] at hn ⊢
      rcases updateHistoryId_cases t.historyId historyId with hkept | hnew
      · rw [hkept] at hn
        exact h.held n hn
      · rw [hnew] at hn
        exact (hqueue n hn).shorten fun id hid => .inl (h.cached id (hall id hid))
    exact hfinished.set i trivial
  · rw [hfetch]
    refine h.set i fun m hm => (hqueue m hm).shorten fun x hx => ?_
    rcases List.mem_append.mp hx with hx | hx
    · exact .inl (h.cached x (hskip x hx))
    · exact .inr hx

theorem InvAt.stop (h : InvAt b t handlers) (i : Nat) : InvAt b t (handlers.set i .done) := h.set i trivial

/-- An imap loop covers nothing. -/
theorem InvAt.proceed_imap (h : InvAt b t handlers) (queue : List JsString) (i : Nat) :
    InvAt b (GmailTransport.proceed t .imap queue).1 (handlers.set i (GmailTransport.proceed t .imap queue).2) := by
  rcases proceed_cases t .imap queue with ⟨-, hdone⟩ | ⟨_, _, _, -, -, -, hfetch⟩
  · rw [hdone]
    exact h.stop i
  · rw [hfetch]
    exact h.set i trivial

/-! ## Steps and runs -/

theorem inv_init (created : JsString) : Inv (gmail emailAddress created).init := by
  refine ⟨nofun, fun n hn => ⟨?_, nofun⟩, nofun⟩
  simp only [gmail, Option.mem_def] at hn ⊢
  simp only [hn, Option.getD_some]
  omega

theorem inv_notification {s t : St} {address historyId : JsString} (h : Inv s)
    (hreached : ∀ n ∈ bigInt historyId, n ≤ s.mailbox.current)
    (hs : s.go emailAddress (.notification address historyId) = some t) : Inv t := by
  obtain ⟨c, hc, rfl⟩ := Option.map_eq_some_iff.mp hs
  simp only [GmailTransport.step] at hc
  split at hc
  · obtain rfl := Option.some.inj hc
    exact h
  · obtain rfl := Option.some.inj hc
    refine ⟨h.cached, h.held, fun x hx => ?_⟩
    rcases List.mem_append.mp hx with hx | hx
    · exact h.working x hx
    · obtain rfl := List.mem_singleton.mp hx
      exact ⟨h.held, hreached⟩

theorem inv_listed {s t : St} {i k limit : Nat} {token : JsString} (h : Inv s)
    (hc : Complete s (.listed i k limit token)) (hs : step emailAddress s (.listed i k limit token) = some t) : Inv t := by
  simp only [step] at hs
  split at hs
  · rename_i sinceHistoryId historyId hhandler
    obtain ⟨since, hsince, hs⟩ := Option.bind_eq_some_iff.mp hs
    split at hs
    · rename_i hseen
      obtain ⟨c, hc', rfl⟩ := Option.map_eq_some_iff.mp hs
      simp only [GmailTransport.step, hhandler] at hc'
      obtain rfl := Option.some.inj hc'
      obtain ⟨hheld, hreached⟩ := h.working _ (List.mem_of_getElem? hhandler)
      refine InvAt.proceed h (fun m hm => ?_) i
      exact (hheld since hsince).listed (hreached m hm) (hseen m hm) (hc _ hhandler since hsince)
    · cases hs
  · cases hs

theorem inv_listFails {s t : St} {i : Nat} (h : Inv s) (hs : s.go emailAddress (.listedHistory i none) = some t) : Inv t := by
  obtain ⟨c, hc, rfl⟩ := Option.map_eq_some_iff.mp hs
  simp only [GmailTransport.step] at hc
  split at hc
  · obtain rfl := Option.some.inj hc
    exact InvAt.stop h i
  · cases hc

/-- A message that is delivered already, or is now, is passed. -/
theorem inv_passed {s : St} {i : Nat} {id : JsString} {rest : List JsString} {loop : Loop} {u : Transport} (h : Inv s)
    (hhandler : s.channel.handlers[i]? = some (.fetching id rest loop)) (hu : InvAt s.mailbox u s.channel.handlers)
    (hmore : ∀ x ∈ s.channel.transport.delivered, x ∈ u.delivered) (hid : id ∈ u.delivered) :
    InvAt s.mailbox (proceed u loop rest).1 (s.channel.handlers.set i (proceed u loop rest).2) ∧
      InvAt s.mailbox (afterError u loop rest).1 (s.channel.handlers.set i (afterError u loop rest).2) := by
  have hworking := h.working _ (List.mem_of_getElem? hhandler)
  cases loop with
  | imap => exact ⟨hu.proceed_imap rest i, hu.stop i⟩
  | pubSub historyId =>
    have hrest : ∀ m ∈ bigInt historyId, Covered s.mailbox u.delivered m rest := by
      intro m hm
      refine ((hworking m hm).mono hmore).shorten fun x hx => ?_
      rcases List.mem_cons.mp hx with rfl | hx
      · exact .inl hid
      · exact .inr hx
    have hgoes := hu.proceed hrest i
    exact ⟨hgoes, hgoes⟩

theorem inv_message {s t : St} {i : Nat} {answer : Fetched} (h : Inv s) (hc : Complete s (.message i answer))
    (hs : step emailAddress s (.message i answer) = some t) : Inv t := by
  simp only [step] at hs
  split at hs
  · rename_i id rest loop id' handled hhandler
    split at hs
    · rename_i hasked
      subst hasked
      obtain ⟨c, hc', rfl⟩ := Option.map_eq_some_iff.mp hs
      simp only [GmailTransport.step, hhandler] at hc'
      obtain rfl := Option.some.inj hc'
      obtain ⟨hid, hmore, -, -⟩ := deliverEmail_spec h.cached id'
      obtain ⟨hgoes, hleft⟩ := inv_passed h hhandler (InvAt.deliver h id') hmore hid
      simp only [Inv, GmailTransport.St.resume, fetched]
      split
      · exact hgoes
      · exact hleft
    · cases hs
  · rename_i id rest loop hhandler
    obtain ⟨c, hc', rfl⟩ := Option.map_eq_some_iff.mp hs
    simp only [GmailTransport.step, hhandler] at hc'
    obtain rfl := Option.some.inj hc'
    exact (inv_passed h hhandler h (fun _ hx => hx) (hc _ hhandler)).2
  · cases hs

theorem inv_step {s t : St} {e : Ev} (h : Inv s) (hc : Complete s e) (hs : step emailAddress s e = some t) : Inv t := by
  cases e with
  | mail r =>
    obtain ⟨b, hb, rfl⟩ := Option.map_eq_some_iff.mp hs
    exact ⟨h.cached, fun n hn => (h.held n hn).arrive hb, fun x hx => (h.working x hx).arrive hb⟩
  | notification address historyId =>
    simp only [step] at hs
    split at hs
    · rename_i hreached
      exact inv_notification h hreached hs
    · cases hs
  | listed i k limit token => exact inv_listed h hc hs
  | listFails i => exact inv_listFails h hs
  | message i answer => exact inv_message h hc hs

/-- Whatever the stored id has passed is delivered, in a run in which nothing is left on a second
    page and no undelivered message fails to be fetched. -/
theorem history_is_delivered (emailAddress created : JsString) (s : St)
    (h : Reach (gmail emailAddress created) Complete s) : Sound s := by
  have hinv : Inv s := h.inv (inv_init created) fun _ _ _ _ hs hc hstep => inv_step hs hc hstep
  exact InvAt.sound hinv

def me : JsString := ofString "me@gmail.com"

def first : Record := ⟨101, some [ofString "19a"]⟩

def second : Record := ⟨102, some [ofString "19b"]⟩

theorem two_emails_are_passed : ∃ s, Reach (gmail me (ofString "100")) Complete s ∧
    s.channel.transport.historyId = ofString "102" ∧ Sound s := by
  have hrun : ∃ s, Reach (gmail me (ofString "100")) Complete s ∧
      decide (s.channel.transport.historyId = ofString "102") = true :=
    reach_any [.mail first, .mail second, .notification me (ofString "102"), .listed 0 2 100 [],
      .message 0 (.parsed (ofString "19a") true),
      .message 0 (.parsed (ofString "19b") true)] (by decide) (by decide)
  obtain ⟨s, hs, hpassed⟩ := hrun
  exact ⟨s, hs, of_decide_eq_true hpassed, history_is_delivered me (ofString "100") s hs⟩

/-- The id has passed the second record, and its message is not delivered. -/
def Skips (s : St) : Bool :=
  decide (s.channel.transport.historyId = ofString "102") && decide (second ∈ s.mailbox.records) &&
    decide (ofString "19b" ∉ s.channel.transport.delivered)

theorem skips_not_sound {s : St} (h : Skips s = true) : ¬Sound s := by
  simp only [Skips, Bool.and_eq_true, decide_eq_true_eq] at h
  obtain ⟨⟨hpassed, hrecord⟩, hskipped⟩ := h
  intro hsound
  refine hskipped (hsound 102 ?_ second hrecord (by decide) _ (by decide))
  rw [hpassed]
  decide

theorem a_second_page_is_skipped : ∃ s, Reach (gmail me (ofString "100")) Free s ∧ ¬Sound s := by
  obtain ⟨s, hs, hskips⟩ : ∃ s, Reach (gmail me (ofString "100")) Free s ∧ Skips s = true :=
    reach_any [.mail first, .mail second, .notification me (ofString "102"), .listed 0 2 1 (ofString "n"),
      .message 0 (.parsed (ofString "19a") true)] (meets_free ..) (by decide)
  exact ⟨s, hs, skips_not_sound hskips⟩

theorem a_failed_fetch_is_passed : ∃ s, Reach (gmail me (ofString "100")) Free s ∧ ¬Sound s := by
  obtain ⟨s, hs, hskips⟩ : ∃ s, Reach (gmail me (ofString "100")) Free s ∧ Skips s = true :=
    reach_any [.mail first, .mail second, .notification me (ofString "102"), .listed 0 2 100 [],
      .message 0 (.parsed (ofString "19a") true), .message 0 .failed] (meets_free ..) (by decide)
  exact ⟨s, hs, skips_not_sound hskips⟩

end GmailHistory

end FlowHelm.Channels
