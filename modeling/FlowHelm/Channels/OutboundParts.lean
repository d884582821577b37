/-
  FlowHelm.Channels.OutboundParts — what the user is shown of a response.

  - `shown_in_order`: the parts of a text in order from the first, each once in either mode or in
    both, and all of them where the client was told so.
  - `once_iff`: no part is shown twice just until Telegram accepts in plain text what it had accepted
    in MarkdownV2.
  - `the_user_reads`: until then the user reads the text, marks and white space aside.
-/
import Mathlib.Data.List.Induction
import Mathlib.Data.List.Nodup
import FlowHelm.Channels.Outbound
import FlowHelm.Lib.Parties

namespace FlowHelm.Channels.Outbound

open Js Parties Runs

/-! ## Versions of a part -/

/-- How a part is shown: in one mode, or again in plain text since the answer was lost. -/
inductive Version where
  | markdownV2
  | plain
  | both

def Version.modes : Version → List Mode
  | .markdownV2 => [.markdownV2]
  | .plain => [.plain]
  | .both => [.markdownV2, .plain]

/-- The parts in order, each in its version. -/
def told (versions : List Version) : List (Nat × Mode) := versions.zipIdx.flatMap fun (v, part) => v.modes.map (part, ·)

theorem told_concat (versions : List Version) (v : Version) :
    told (versions ++ [v]) = told versions ++ v.modes.map (versions.length, ·) := by
  rw [told, List.zipIdx_append, List.flatMap_append, Nat.zero_add, told]
  congr 1
  exact List.append_nil _

theorem told_lt {versions : List Version} {p : Nat × Mode} (h : p ∈ told versions) : p.1 < versions.length := by
  obtain ⟨⟨v, part⟩, hv, hp⟩ := List.mem_flatMap.mp h
  obtain ⟨mode, -, rfl⟩ := List.mem_map.mp hp
  obtain ⟨hlt, -⟩ := List.mem_zipIdx' hv
  exact hlt

/-- Where no part is there twice, each is there once. -/
theorem told_once {versions : List Version} (h : ((told versions).map Prod.fst).Nodup) :
    (told versions).map Prod.fst = List.range versions.length := by
  induction versions using List.reverseRecOn with
  | nil => rfl
  | append_singleton versions v ih =>
    rw [told_concat, List.map_append, List.map_map] at h ⊢
    obtain ⟨hversions, hv, -⟩ := List.nodup_append.mp h
    rw [ih hversions, List.length_append, List.length_singleton, List.range_succ]
    congr 1
    cases v with
    | markdownV2 | plain => rfl
    | both => simp [Version.modes] at hv

/-! ## The parts of a send -/

/-- What is shown of a chunk that Telegram is asked for. -/
def current (accepted before : Bool) : Mode → List Mode
  | .markdownV2 => if accepted then [.markdownV2] else []
  | .plain => (if before then [.markdownV2] else []) ++ if accepted then [.plain] else []

def St.partsOf (s : St) (i : Nat) : List (Nat × Mode) := (s.shown.filter (·.send = i)).map fun m => (m.part, m.mode)

def Send.chunks (send : Send) : List JsString := chunksOf send.request.text

/-- Into the chat it is for, as the reply it is, and a chunk of the text. -/
structure Shown.Belongs (m : Shown) (send : Send) : Prop where
  chat : parseTelegramChatId send.request.userId = some m.chatId
  reply : m.replyTo = replyParameter send.request.replyToMessageId
  chunk : ∃ chunk, send.chunks[m.part]? = some chunk ∧ m.text = m.mode.render chunk

/-- What is shown of a send, by how far the container is. -/
def Told (send : Send) (parts : List (Nat × Mode)) : Prop := match send.server with
  | .travelling | .closed => parts = []
  | .asking chatId part mode accepted before =>
    parseTelegramChatId send.request.userId = some chatId ∧ part < send.chunks.length ∧
    ∃ versions, versions.length = part ∧ parts = told versions ++ (current accepted before mode).map (part, ·)
  | .answered .success => ∃ versions, versions.length = send.chunks.length ∧ parts = told versions
  | .answered (.error ..) => ∃ versions, versions.length ≤ send.chunks.length ∧ parts = told versions

structure Inv (s : St) : Prop where
  told : ∀ (i : Nat) send, s.sends[i]? = some send → Told send (s.partsOf i)
  resolved : ∀ (i : Nat) send, s.sends[i]? = some send → send.client = .resolved → send.server = .answered .success
  belongs : ∀ m ∈ s.shown, ∃ send, s.sends[m.send]? = some send ∧ m.Belongs send

/-! ## A step -/

section

variable {s : St} {i : Nat} {send next : Send} {shown : List Shown} {e : Ev}

theorem partsOf_moved {j : Nat} (hs : ∀ m ∈ shown, m.send = i) :
    ({ s.put i next with shown := s.shown ++ shown } : St).partsOf j =
      s.partsOf j ++ if j = i then shown.map fun m => (m.part, m.mode) else [] := by
  unfold St.partsOf
  rw [List.filter_append, List.map_append]
  congr 1
  split
  · rename_i hj
    rw [List.filter_eq_self.mpr fun m hm => decide_eq_true ((hs m hm).trans hj.symm)]
  · rename_i hj
    rw [List.filter_eq_nil_iff.mpr fun m hm => by simpa [hs m hm] using fun h => hj h.symm, List.map_nil]

/-- The next chunk is asked for, or all have been shown. -/
theorem told_ask {connected : Bool} {chatId : JsNumber} {part : Nat} {versions : List Version}
    (hchat : parseTelegramChatId send.request.userId = some chatId) (hpart : versions.length = part)
    (hle : part ≤ send.chunks.length) : Told { send with server := ask connected send.request chatId part } (told versions) := by
  unfold ask
  split
  · rename_i hall
    exact ⟨versions, Nat.le_antisymm (hpart ▸ hle) (hpart ▸ hall), rfl⟩
  · rename_i hmore
    split
    · exact ⟨hchat, Nat.lt_of_not_le hmore, versions, hpart, by simp [current]⟩
    · exact ⟨versions, hpart ▸ hle, rfl⟩

theorem told_handleSend {connected : Bool} : Told { send with server := handleSend connected send.request } [] := by
  have hnone : ∃ versions, versions.length ≤ send.chunks.length ∧ [] = told versions := ⟨[], Nat.zero_le _, rfl⟩
  unfold handleSend
  split
  · rfl
  · split
    · exact hnone
    · split
      · exact hnone
      · split
        · exact hnone
        · unfold adapterSend
          split
          · split
            · rename_i hchat
              exact @told_ask _ _ _ 0 [] hchat rfl (Nat.zero_le _)
            · exact hnone
          · exact hnone

theorem current_accepted (before : Bool) (mode : Mode) : current true before mode = current false before mode ++ [mode] := by
  cases mode <;> simp [current]

/-- Whatever is shown of a chunk in the end is a version of it, or nothing. -/
theorem current_version (accepted before : Bool) (mode : Mode) :
    (accepted = false ∧ current accepted before mode = []) ∨ ∃ v : Version, current accepted before mode = v.modes := by
  cases mode with
  | markdownV2 =>
    cases accepted with
    | false => exact .inl ⟨rfl, rfl⟩
    | true => exact .inr ⟨.markdownV2, rfl⟩
  | plain =>
    cases accepted with
    | false =>
      cases before with
      | false => exact .inl ⟨rfl, rfl⟩
      | true => exact .inr ⟨.markdownV2, rfl⟩
    | true =>
      cases before with
      | false => exact .inr ⟨.plain, rfl⟩
      | true => exact .inr ⟨.both, rfl⟩

/-- A send that comes to its end at a chunk. -/
theorem told_stop {part : Nat} {versions : List Version} (hpart : versions.length = part) (hlt : part < send.chunks.length)
    (accepted before : Bool) (mode : Mode) :
    ∃ all, all.length ≤ send.chunks.length ∧ told versions ++ (current accepted before mode).map (part, ·) = told all := by
  rcases current_version accepted before mode with ⟨-, hnone⟩ | ⟨v, hv⟩
  · exact ⟨versions, by omega, by rw [hnone, List.map_nil, List.append_nil]⟩
  · refine ⟨versions ++ [v], ?_, ?_⟩
    · rw [List.length_append, List.length_singleton]
      omega
    · rw [hv, told_concat, hpart]

theorem told_accepted {server : Server} {message : Shown} {parts : List (Nat × Mode)}
    (h : accepted i send.request send.server = some (server, message)) (hs : Told send parts) :
    Told { send with server := server } (parts ++ [(message.part, message.mode)]) := by
  unfold accepted at h
  split at h
  · rename_i chatId part mode before hserver
    obtain ⟨chunk, -, hmessage⟩ := Option.map_eq_some_iff.mp h
    cases hmessage
    simp only [Told, hserver] at hs
    obtain ⟨hchat, hlt, versions, hpart, rfl⟩ := hs
    refine ⟨hchat, hlt, versions, hpart, ?_⟩
    rw [current_accepted, List.map_append, List.append_assoc, List.map_singleton]
  · cases h

theorem told_answered {connected : Bool} {server : Server} {a : Answer} {parts : List (Nat × Mode)}
    (h : answered connected send.request send.server a = some server) (hs : Told send parts) :
    Told { send with server := server } parts := by
  unfold answered at h
  split at h
  · -- the next chunk
    rename_i chatId part mode before hserver
    obtain rfl := Option.some.inj h
    simp only [Told, hserver] at hs
    obtain ⟨hchat, hlt, versions, hpart, rfl⟩ := hs
    rcases current_version true before mode with ⟨haccepted, -⟩ | ⟨v, hv⟩
    · cases haccepted
    · rw [hv, ← hpart, ← told_concat]
      exact told_ask hchat (by rw [List.length_append, List.length_singleton]) (hpart ▸ hlt)
  · -- the other mode, or the end
    rename_i chatId part mode accepted before message hserver
    obtain rfl := Option.some.inj h
    simp only [Told, hserver] at hs
    obtain ⟨hchat, hlt, versions, hpart, rfl⟩ := hs
    have hstop := told_stop hpart hlt accepted before mode
    cases mode with
    | markdownV2 =>
      cases connected with
      | true => exact ⟨hchat, hlt, versions, hpart, by simp [current]⟩
      | false => exact hstop
    | plain => exact hstop
  · cases h

/-- What a move makes of the parts. -/
theorem told_moves (h : Moves s.connected i send e next shown) (hs : Told send (s.partsOf i)) :
    Told next (s.partsOf i ++ shown.map fun m => (m.part, m.mode)) := by
  cases h with
  | arrives travelling =>
    simp only [Told, travelling] at hs
    rw [hs]
    exact told_handleSend
  | accepted h => exact told_accepted h hs
  | answered h =>
    rw [List.map_nil, List.append_nil]
    exact told_answered h hs
  | responds waiting h =>
    rw [List.map_nil, List.append_nil]
    exact hs
  | abandons waiting message =>
    rw [List.map_nil, List.append_nil]
    exact hs

theorem moves_request (h : Moves s.connected i send e next shown) : next.request = send.request := by
  cases h <;> rfl

theorem resolved_moves (h : Moves s.connected i send e next shown) (hs : send.client = .resolved →
    send.server = .answered .success)
    (hnext : next.client = .resolved) : next.server = .answered .success := by
  cases h with
  | arrives travelling => cases travelling.symm.trans (hs hnext)
  | accepted h =>
    rw [hs hnext] at h
    cases h
  | answered h =>
    rw [hs hnext] at h
    cases h
  | @responds response waiting h =>
    cases response with
    | success => exact h
    | error => cases hnext
  | abandons waiting message => cases hnext

theorem belongs_moves (h : Moves s.connected i send e next shown) (hs : Told send (s.partsOf i)) :
    ∀ m ∈ shown, m.send = i ∧ m.Belongs next := by
  cases h with
  | @accepted server message h =>
    intro m hm
    obtain rfl := List.mem_singleton.mp hm
    unfold accepted at h
    split at h
    · rename_i chatId part mode before hserver
      obtain ⟨chunk, hchunk, hmessage⟩ := Option.map_eq_some_iff.mp h
      cases hmessage
      simp only [Told, hserver] at hs
      exact ⟨rfl, hs.1, rfl, chunk, hchunk, rfl⟩
    · cases h
  | _ => exact List.forall_mem_nil _

theorem Shown.Belongs.moved {m : Shown} (h : m.Belongs send) (hrequest : next.request = send.request) : m.Belongs next where
  chat := hrequest ▸ h.chat
  reply := hrequest ▸ h.reply
  chunk := by
    unfold Send.chunks
    rw [hrequest]
    exact h.chunk

end

theorem inv_step {s t : St} {e : Ev} (hs : Inv s) (h : step s e = some t) : Inv t := by
  rcases step_moves h with ⟨r, -, rfl⟩ | ⟨up, -, rfl⟩ | ⟨i, send, next, shown, hi, hmoves, rfl⟩
  · refine ⟨?_, ?_, ?_⟩
    · intro j send hj
      rcases joined hj with hj | ⟨rfl, rfl⟩
      · exact hs.told j send hj
      · -- nothing of it is shown yet
        refine List.map_eq_nil_iff.mpr (List.filter_eq_nil_iff.mpr fun m hm => ?_)
        obtain ⟨send, hsend, -⟩ := hs.belongs m hm
        obtain ⟨hlt, -⟩ := List.getElem?_eq_some_iff.mp hsend
        simpa using Nat.ne_of_lt hlt
    · intro j send hj
      rcases joined hj with hj | ⟨rfl, rfl⟩
      · exact hs.resolved j send hj
      · intro hresolved
        cases hresolved
    · intro m hm
      obtain ⟨send, hsend, hbelongs⟩ := hs.belongs m hm
      obtain ⟨hlt, -⟩ := List.getElem?_eq_some_iff.mp hsend
      exact ⟨send, (List.getElem?_append_left hlt).trans hsend, hbelongs⟩
  · exact ⟨hs.told, hs.resolved, hs.belongs⟩
  · have htold := hs.told i send hi
    have hshown := belongs_moves hmoves htold
    refine ⟨?_, ?_, ?_⟩
    · intro j x hj
      rw [partsOf_moved fun m hm => (hshown m hm).1]
      rcases changed hj with ⟨rfl, rfl⟩ | ⟨hne, hj⟩
      · rw [if_pos rfl]
        exact told_moves hmoves htold
      · rw [if_neg hne, List.append_nil]
        exact hs.told j x hj
    · intro j x hj
      rcases changed hj with ⟨rfl, rfl⟩ | ⟨-, hj⟩
      · exact resolved_moves hmoves (hs.resolved _ send hi)
      · exact hs.resolved j x hj
    · intro m hm
      rcases List.mem_append.mp hm with hm | hm
      · obtain ⟨x, hx, hbelongs⟩ := hs.belongs m hm
        by_cases hsend : m.send = i
        · subst hsend
          obtain ⟨hlt, -⟩ := List.getElem?_eq_some_iff.mp hi
          obtain rfl := Option.some.inj (hx.symm.trans hi)
          exact ⟨next, List.getElem?_set_self hlt, hbelongs.moved (moves_request hmoves)⟩
        · exact ⟨x, (List.getElem?_set_ne fun h => hsend h.symm).trans hx, hbelongs⟩
      · obtain ⟨rfl, hbelongs⟩ := hshown m hm
        obtain ⟨hlt, -⟩ := List.getElem?_eq_some_iff.mp hi
        exact ⟨next, List.getElem?_set_self hlt, hbelongs⟩

theorem inv_init : Inv channel.init where
  told i send hi := by cases hi
  resolved i send hi := by cases hi
  belongs := List.forall_mem_nil _

theorem inv {C : St → Ev → Prop} {s : St} (h : Reach channel C s) : Inv s :=
  h.inv inv_init fun _ _ _ _ hs _ he => inv_step hs he

/-! ## In order -/

/-- Whatever fails, of a response the user is shown the parts in order from the first, in the chat
    and as the reply it is, and all of them where the client was told so. -/
theorem shown_in_order {s : St} (h : Reach channel Free s) {i : Nat} {send : Send} (hi : s.sends[i]? = some send) :
    (∀ m ∈ s.shown, m.send = i → m.Belongs send) ∧
      ∃ versions : List Version, versions.length ≤ send.chunks.length ∧ s.partsOf i = told versions ∧
        (send.client = .resolved → versions.length = send.chunks.length) := by
  have hs := inv h
  refine ⟨?_, ?_⟩
  · intro m hm hsend
    obtain ⟨x, hx, hbelongs⟩ := hs.belongs m hm
    rw [hsend] at hx
    exact Option.some.inj (hi.symm.trans hx) ▸ hbelongs
  · have htold := hs.told i send hi
    have hresolved := hs.resolved i send hi
    unfold Told at htold
    split at htold
    · rename_i hserver
      exact ⟨[], Nat.zero_le _, htold, fun h => by cases hserver.symm.trans (hresolved h)⟩
    · rename_i hserver
      exact ⟨[], Nat.zero_le _, htold, fun h => by cases hserver.symm.trans (hresolved h)⟩
    · rename_i chatId part mode accepted before hserver
      obtain ⟨-, hlt, versions, hpart, hparts⟩ := htold
      obtain ⟨all, hle, hall⟩ := told_stop hpart hlt accepted before mode
      exact ⟨all, hle, hparts.trans hall, fun h => by cases hserver.symm.trans (hresolved h)⟩
    · obtain ⟨versions, hlength, hparts⟩ := htold
      exact ⟨versions, Nat.le_of_eq hlength, hparts, fun _ => hlength⟩
    · rename_i hserver
      obtain ⟨versions, hle, hparts⟩ := htold
      exact ⟨versions, hle, hparts, fun h => by cases hserver.symm.trans (hresolved h)⟩

def greeting : SendRequest := ⟨ofString "telegram", ofString "tg:7", ofString "_hi_ there", none⟩

/-- Telegram has accepted the first attempt, and the answer is lost. -/
def lostAnswer : List Ev :=
  [.connection true, .send greeting, .arrive 0, .accept 0, .answer 0 (.failed (ofString "socket hang up"))]

theorem a_lost_answer_is_shown_again : ∃ s send, Reach channel Free s ∧ s.sends[0]? = some send ∧
    s.partsOf 0 = [(0, .markdownV2), (0, .plain)] ∧
      ∃ versions : List Version, versions.length ≤ send.chunks.length ∧ s.partsOf 0 = told versions ∧
      (send.client = .resolved → versions.length = send.chunks.length) := by
  obtain ⟨s, hs, hp⟩ := reach_any (M := channel)
    (P := fun s => decide (s.partsOf 0 = [(0, .markdownV2), (0, .plain)]) && s.sends[0]?.isSome)
    (lostAnswer ++ [.accept 0, .answer 0 .ok, .respond 0]) (meets_free _ _) (by decide +kernel)
  rw [Bool.and_eq_true, decide_eq_true_iff] at hp
  obtain ⟨send, hsend⟩ := Option.isSome_iff_exists.mp hp.2
  exact ⟨s, send, hs, hsend, hp.1, (shown_in_order hs hsend).2⟩

/-! ## Once -/

/-- No part of a response is shown twice. -/
def Once (s : St) : Prop := (s.shown.map fun m => (m.send, m.part)).Nodup

/-- The part that Telegram is asked for in plain text is shown already. -/
def Server.repeats : Server → Bool
  | .asking _ _ .plain _ true => true
  | _ => false

/-- Telegram accepts no part it has accepted. -/
def Anew (s : St) : Ev → Prop
  | .accept i => ∀ send ∈ s.sends[i]?, send.server.repeats = false
  | _ => True

instance decidableAnew (s : St) : (e : Ev) → Decidable (Anew s e)
  | .accept i => inferInstanceAs (Decidable (∀ send ∈ s.sends[i]?, send.server.repeats = false))
  | .send _ | .arrive _ | .answer .. | .respond _ | .abandon .. | .connection _ => inferInstanceAs (Decidable True)

theorem mem_parts {s : St} {i part : Nat} : (i, part) ∈ s.shown.map (fun m => (m.send, m.part)) ↔
    part ∈ (s.partsOf i).map Prod.fst := by
  unfold St.partsOf
  rw [List.map_map, List.mem_map, List.mem_map]
  constructor
  · rintro ⟨m, hm, hsame⟩
    obtain ⟨hsend, hpart⟩ := Prod.mk.inj hsame
    exact ⟨m, List.mem_filter.mpr ⟨hm, decide_eq_true hsend⟩, hpart⟩
  · rintro ⟨m, hm, hpart⟩
    obtain ⟨hm, hsend⟩ := List.mem_filter.mp hm
    exact ⟨m, hm, Prod.ext (of_decide_eq_true hsend) hpart⟩

/-- What is accepted now has been shown just if it repeats. -/
theorem shown_iff_repeats {i : Nat} {send : Send} {server : Server} {m : Shown} {parts : List (Nat × Mode)} (hs : Told send parts)
    (h : accepted i send.request send.server = some (server, m)) : m.part ∈ parts.map Prod.fst ↔ send.server.repeats = true := by
  unfold accepted at h
  split at h
  · rename_i chatId part mode before hserver
    obtain ⟨chunk, -, hm⟩ := Option.map_eq_some_iff.mp h
    cases hm
    simp only [Told, hserver] at hs
    obtain ⟨-, -, versions, rfl, rfl⟩ := hs
    -- the parts behind it are others
    have hnew : versions.length ∉ (told versions).map Prod.fst := by
      intro hmem
      obtain ⟨p, hp, hpart⟩ := List.mem_map.mp hmem
      exact Nat.ne_of_lt (told_lt hp) hpart
    rw [hserver, List.map_append, List.mem_append, or_iff_right hnew]
    cases mode with
    | markdownV2 => simp [current, Server.repeats]
    | plain => cases before <;> simp [current, Server.repeats]
  · cases h

theorem once_step {s t : St} {e : Ev} (hs : Inv s) (honce : Once s) (h : step s e = some t) : Once t ↔ Anew s e := by
  rcases step_moves h with ⟨r, rfl, rfl⟩ | ⟨up, rfl, rfl⟩ | ⟨i, send, next, shown, hi, hmoves, rfl⟩
  · exact iff_of_true honce trivial
  · exact iff_of_true honce trivial
  · cases hmoves with
    | @accepted server m haccepted =>
      have hanew : Anew s (.accept i) ↔ send.server.repeats = false := by
        show (∀ send ∈ s.sends[i]?, send.server.repeats = false) ↔ _
        rw [hi]
        exact ⟨fun h => h send rfl, fun h x hx => Option.some.inj hx ▸ h⟩
      obtain ⟨hsend, -⟩ := belongs_moves (s := s) (.accepted haccepted) (hs.told i send hi) m (List.mem_singleton_self m)
      have hrepeats := shown_iff_repeats (hs.told i send hi) haccepted
      rw [hanew, ← Bool.not_eq_true, ← hrepeats, ← mem_parts]
      show ((s.shown ++ [m]).map fun m => (m.send, m.part)).Nodup ↔ _
      rw [List.map_append, List.map_singleton, hsend, List.nodup_append]
      constructor
      · rintro ⟨-, -, hne⟩ hmem
        exact hne _ hmem _ (List.mem_singleton_self _) rfl
      · intro hnew
        refine ⟨honce, List.nodup_singleton _, fun p hp q hq hpq => hnew ?_⟩
        rwa [← List.mem_singleton.mp hq, ← hpq]
    | _ => exact iff_of_true (by rwa [Once, List.append_nil]) trivial

theorem once_iff {s : St} (h : Reach channel Anew s) : Once s ∧ ∀ e t, step s e = some t → (Once t ↔ Anew s e) := by
  have hkeeps := h.keeps_iff (I := fun s => Inv s ∧ Once s) ⟨inv_init, List.nodup_nil⟩ fun s e t hs he => by
    rw [← once_step hs.1 hs.2 he]
    exact and_iff_right (inv_step hs.1 he)
  refine ⟨hkeeps.1.2, fun e t he => ?_⟩
  exact once_step hkeeps.1.1 hkeeps.1.2 he

/-- Plain text goes out behind the lost answer. -/
theorem a_lost_answer_is_not_the_end : ∃ s t, Reach channel Anew s ∧ Once s ∧ step s (.accept 0) = some t ∧ ¬Once t := by
  obtain ⟨s, hs, hp⟩ := reach_any (M := channel) (C := Anew)
    (P := fun s => (step s (.accept 0)).isSome && !decide (Anew s (.accept 0))) lostAnswer (by decide +kernel) (by decide +kernel)
  rw [Bool.and_eq_true, Bool.not_eq_true', decide_eq_false_iff_not] at hp
  obtain ⟨t, ht⟩ := Option.isSome_iff_exists.mp hp.1
  obtain ⟨honce, hiff⟩ := once_iff hs
  exact ⟨s, t, hs, honce, ht, fun h => hp.2 ((hiff _ t ht).mp h)⟩

/-! ## What is read -/

theorem flatMap_range {α β : Type} (f : α → List β) (d : α) (l : List α) {n : Nat} (hn : n ≤ l.length) :
    (List.range n).flatMap (fun p => f (l[p]?.getD d)) = (l.take n).flatMap f := by
  induction n with
  | zero => rfl
  | succ n ih =>
    have hlt : n < l.length := hn
    rw [List.range_succ, List.flatMap_append, ih (Nat.le_of_lt hlt), List.take_succ_eq_append_getElem hlt, List.flatMap_append]
    simp [hlt]

theorem letters_flatten (chunks : List JsString) : letters chunks.flatten = chunks.flatMap letters := by
  unfold letters
  rw [List.filter_flatten]
  rfl

theorem render_letters (mode : Mode) (chunk : JsString) : letters (mode.render chunk) = letters chunk := by
  cases mode with
  | markdownV2 => rfl
  | plain => exact stripMarkdown_letters chunk

/-- The letters of what is shown of a send, in order. -/
def St.reads (s : St) (i : Nat) : JsString := (s.shown.filter (·.send = i)).flatMap fun m => letters m.text

/-- While no part is shown twice the user reads the text from its start, marks and white space aside,
    and all of it where the client was told so. -/
theorem the_user_reads {s : St} (h : Reach channel Anew s) {i : Nat} {send : Send} (hi : s.sends[i]? = some send) :
    s.reads i <+: letters send.request.text ∧ (send.client = .resolved → s.reads i = letters send.request.text) := by
  obtain ⟨honce, -⟩ := once_iff h
  obtain ⟨hbelongs, versions, hle, hparts, hall⟩ := shown_in_order (h.mono fun _ _ _ => trivial) hi
  have hnodup : ((s.partsOf i).map Prod.fst).Nodup := by
    have hmine : (s.shown.filter (·.send = i)).map (fun m => (m.send, m.part)) = ((s.partsOf i).map Prod.fst).map (i, ·) := by
      rw [St.partsOf, List.map_map, List.map_map]
      refine List.map_congr_left fun m hm => ?_
      exact Prod.ext (of_decide_eq_true (List.mem_filter.mp hm).2) rfl
    have hsub := honce.sublist ((List.filter_sublist (p := (·.send = i))).map _)
    rw [hmine] at hsub
    exact hsub.of_map
  have hrange : (s.partsOf i).map Prod.fst = List.range versions.length := by
    rw [hparts] at hnodup ⊢
    exact told_once hnodup
  have hreads : s.reads i = letters (send.chunks.take versions.length).flatten := by
    calc s.reads i = ((s.partsOf i).map Prod.fst).flatMap fun p => letters (send.chunks[p]?.getD []) := by
          rw [St.reads, St.partsOf, List.map_map, List.flatMap_map]
          refine List.flatMap_congr fun m hm => ?_
          obtain ⟨hm, hsend⟩ := List.mem_filter.mp hm
          obtain ⟨chunk, hchunk, htext⟩ := (hbelongs m hm (of_decide_eq_true hsend)).chunk
          rw [htext, render_letters]
          exact congrArg letters (congrArg (Option.getD · []) hchunk).symm
      _ = (send.chunks.take versions.length).flatMap letters := by rw [hrange, flatMap_range letters [] send.chunks hle]
      _ = letters (send.chunks.take versions.length).flatten := (letters_flatten _).symm
  have htext : letters send.chunks.flatten = letters send.request.text := chunks_letters send.request.text
  refine ⟨?_, fun hresolved => ?_⟩
  · refine ⟨letters (send.chunks.drop versions.length).flatten, ?_⟩
    rw [hreads, ← letters_append, ← List.flatten_append, List.take_append_drop, htext]
  · rw [hreads, hall hresolved, List.take_length, htext]

/-- Telegram refuses the markup. -/
theorem plain_text_is_read : ∃ s send, Reach channel Anew s ∧ s.sends[0]? = some send ∧ send.client = .resolved ∧
    s.reads 0 = letters send.request.text := by
  obtain ⟨s, hs, hp⟩ := reach_any (M := channel) (C := Anew) (P := fun s => s.sends[0]?.any fun send => send.client = .resolved)
    [.connection true, .send greeting, .arrive 0, .answer 0 (.failed (ofString "can't parse entities")), .accept 0, .answer 0 .ok,
      .respond 0] (by decide +kernel) (by decide +kernel)
  obtain ⟨send, hsend, hresolved⟩ := (Option.any_eq_true _ _).mp hp
  have hresolved := of_decide_eq_true hresolved
  exact ⟨s, send, hs, hsend, hresolved, (the_user_reads hs hsend).2 hresolved⟩

end FlowHelm.Channels.Outbound
