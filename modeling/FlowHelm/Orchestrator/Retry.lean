/-
  FlowHelm.Orchestrator.Retry — the task message each attempt of an item hands to the
  agent runtime.

  An attempt derives its message from the row's payload, and only the transcription asks
  anything else: the speech-to-text service, about a file the attempt then deletes
  whether or not it goes on to complete. So two attempts of an item agree unless the
  later one asks for a file that is gone, when an earlier one was answered: it falls back
  to the caption or a placeholder.

  `stt` is what the service answers for an existing file, always the same (`SttOk`); for
  a missing file it fails, as docs/voice-pipeline.md says.
  - `task_ok_step`: what one step of a task knows about its text and the messages handed.
  - `same_message`: while no transcription is asked for a file that is gone when an
    earlier attempt handed the item with another message, all attempts hand the same.
  - `a_retried_voice_message_changes`: the first attempt of a voice message fails behind
    the unlink.
-/
import FlowHelm.Orchestrator.Holders
import FlowHelm.Orchestrator.Slots

namespace FlowHelm.Orchestrator.Retry

open Parties Runs Js

/-- Every attempt of an item hands the runtime the same task message. -/
def SameMessage (s : St) : Prop := ∀ id a b, (id, a) ∈ s.handed → (id, b) ∈ s.handed → a = b

/-! ## What an attempt says -/

section

variable (cfg : Config) (stt : String → String)

/-- The text behind the audio block; `present` is whether the service found the file. -/
def heardText (present : Bool) (m : InboundMessage) : Option String :=
  if given m.audioPath then
    if cfg.serviceClient then
      some (if present then transcription m.text (stt (m.audioPath.getD "")) else untranscribed m.text)
    else some (unserviced m.text)
  else m.text

def taskMessage (present : Bool) (m : InboundMessage) : String := (withImage m (heardText cfg stt present m)).getD ""

/-! ## The service -/

/-- What a call of the service came back with. -/
def heard : Ret → Option String
  | .transcript text => some text
  | _ => none

/-- The service answers `stt` for an existing file and fails for a missing one. -/
def SttOk (s : St) : Ev → Prop
  | .task k ret _ => ∀ t ∈ s.tasks[k]?, t.pc.transcribing = true →
      heard ret = if t.item.message.audioPath.getD "" ∈ s.audio then some (stt (t.item.message.audioPath.getD "")) else none
  | _ => True

/-- No transcription is asked for a file that is gone, when an earlier attempt handed the
    item with another message. -/
def Spared (s : St) : Ev → Prop
  | .task k _ _ => ∀ t ∈ s.tasks[k]?, t.pc.transcribing = true → t.item.message.audioPath.getD "" ∉ s.audio →
      ∀ x ∈ s.handed, x.1 = t.item.id → x.2 = taskMessage cfg stt false t.item.message
  | _ => True

/-! ## The invariant -/

def FileThere (s : St) (m : InboundMessage) : Prop := given m.audioPath = true ∧ m.audioPath.getD "" ∈ s.audio

/-- Every message handed for `id` is the one `present` gives, and a file that is still
    there has always been found. -/
def Agree (s : St) (id : Nat) (m : InboundMessage) (present : Bool) : Prop :=
  (∀ x ∈ s.handed, x.1 = id → x.2 = taskMessage cfg stt present m) ∧ (FileThere s m → present = true)

/-- What an attempt that can still hand a message knows. -/
structure TaskOk (s : St) (t : Task) : Prop where
  fresh : t.pc = .transcribe →
    t.text = t.item.message.text ∧ given t.item.message.audioPath = true ∧ cfg.serviceClient = true
  listened : t.pc = .unlink → ∃ p, t.text = heardText cfg stt p t.item.message ∧ Agree cfg stt s t.item.id t.item.message p
  prepared : t.pc.inner = true →
    ∃ p, t.text = withImage t.item.message (heardText cfg stt p t.item.message) ∧
      Agree cfg stt s t.item.id t.item.message p

structure Inv (s : St) : Prop where
  task : ∀ t ∈ s.tasks, TaskOk cfg stt s t
  row : ∀ r ∈ s.queue.rows, ∃ p, Agree cfg stt s r.id r.payload p
  issued : ∀ x ∈ s.handed, ∃ r ∈ s.queue.rows, r.id = x.1

variable {cfg stt}

/-- Nothing handed for the item, and no file that was gone. -/
theorem Agree.mono {s t : St} {id : Nat} {m : InboundMessage} {p : Bool} (h : Agree cfg stt s id m p)
    (hh : ∀ x ∈ t.handed, x.1 = id → x ∈ s.handed) (hf : FileThere t m → FileThere s m) : Agree cfg stt t id m p :=
  ⟨fun x hx hid => h.1 x (hh x hx hid) hid, fun ht => h.2 (hf ht)⟩

theorem TaskOk.mono {s u : St} {t : Task} (h : TaskOk cfg stt s t)
    (hh : ∀ x ∈ u.handed, x.1 = t.item.id → x ∈ s.handed) (hf : FileThere u t.item.message → FileThere s t.item.message) :
    TaskOk cfg stt u t := by
  refine ⟨h.fresh, ?_, ?_⟩
  · intro hpc
    obtain ⟨p, ht, ha⟩ := h.listened hpc
    exact ⟨p, ht, ha.mono hh hf⟩
  · intro hpc
    obtain ⟨p, ht, ha⟩ := h.prepared hpc
    exact ⟨p, ht, ha.mono hh hf⟩

/-- A task that can hand no message any more knows nothing. -/
theorem taskOk_out {s : St} {t : Task} (h : (t.pc.failing || t.pc.settled) = true) : TaskOk cfg stt s t := by
  refine ⟨?_, ?_, ?_⟩ <;> intro hpc
  · simp [hpc, Pc.failing, Pc.settled] at h
  · simp [hpc, Pc.failing, Pc.settled] at h
  · simp only [Pc.inner, Bool.and_eq_true, Bool.not_eq_true'] at hpc
    simp [hpc.1.2, hpc.2] at h

/-- A task in the try block, past the audio. -/
theorem taskOk_in {s : St} {t : Task} {p : Bool} (hpc : t.pc.inner = true)
    (ht : t.text = withImage t.item.message (heardText cfg stt p t.item.message))
    (ha : Agree cfg stt s t.item.id t.item.message p) : TaskOk cfg stt s t := by
  refine ⟨?_, ?_, fun _ => ⟨p, ht, ha⟩⟩ <;> intro hpc'
  · simp [hpc', Pc.inner, Pc.listening] at hpc
  · simp [hpc', Pc.inner, Pc.listening] at hpc

theorem afterAudio_ok {s : St} {t : Task} {p : Bool} (ht : t.text = heardText cfg stt p t.item.message)
    (ha : Agree cfg stt s t.item.id t.item.message p) : TaskOk cfg stt s t.afterAudio := by
  refine taskOk_in (p := p) (Task.afterAudio_inner t).1 ?_ ha
  rw [Task.afterAudio_text, Task.afterAudio_item, ht]

/-! ## One step of a task -/

theorem heardText_none {m : InboundMessage} {p : Bool} (h : given m.audioPath = false) : heardText cfg stt p m = m.text := by
  simp [heardText, h]

theorem heardText_unserviced {m : InboundMessage} {p : Bool} (h : given m.audioPath = true)
    (hs : cfg.serviceClient = false) : heardText cfg stt p m = some (unserviced m.text) := by
  simp [heardText, h, hs]

theorem start_ok {s : St} {it : QueuedItem} {p : Bool} (h : Agree cfg stt s it.id it.message p) :
    TaskOk cfg stt s (Task.start cfg it) := by
  unfold Task.start
  simp only []
  by_cases hg : given it.message.audioPath = true
  · by_cases hs : cfg.serviceClient = true
    · simp only [hg, hs, if_true]
      exact ⟨fun _ => ⟨rfl, hg, hs⟩, nofun, nofun⟩
    · have hs : cfg.serviceClient = false := by simpa using hs
      simp only [hg, hs, if_true, Bool.false_eq_true, if_false]
      exact ⟨nofun, fun _ => ⟨p, (heardText_unserviced hg hs).symm, h⟩, nofun⟩
  · have hg : given it.message.audioPath = false := by simpa using hg
    simp only [hg, Bool.false_eq_true, if_false]
    exact afterAudio_ok (heardText_none hg).symm h

/-- The state behind a task's step holds what the step's effect left. -/
theorem task_ok_step {s u : St} {t t' : Task} {r : Ret} {e : Effect} (hok : TaskOk cfg stt s t)
    (hrow : ∃ p, Agree cfg stt s t.item.id t.item.message p)
    (hstt : t.pc.transcribing = true → heard r =
      if t.item.message.audioPath.getD "" ∈ s.audio then some (stt (t.item.message.audioPath.getD "")) else none)
    (hspared : t.pc.transcribing = true → t.item.message.audioPath.getD "" ∉ s.audio →
      ∀ x ∈ s.handed, x.1 = t.item.id → x.2 = taskMessage cfg stt false t.item.message)
    (hm : Task.Move t r t' e) (hhanded : u.handed = s.handed ++ e.handed t.item.id)
    (haudio : ∀ path ∈ u.audio, path ∈ s.audio) : TaskOk cfg stt u t' := by
  have hfile : FileThere u t.item.message → FileThere s t.item.message := fun h => ⟨h.1, haudio _ h.2⟩
  have hsame : e.handed t.item.id = [] → ∀ {p}, Agree cfg stt s t.item.id t.item.message p →
      Agree cfg stt u t.item.id t.item.message p := by
    intro he p ha
    refine ha.mono ?_ hfile
    intro x hx _
    rw [hhanded, he, List.append_nil] at hx
    exact hx
  cases hm with
  | heard x hpc =>
    obtain ⟨htext, hg, hs⟩ := hok.fresh hpc
    have hret := hstt (by simp [hpc, Pc.transcribing])
    obtain ⟨p, ha⟩ := hrow
    refine ⟨nofun, fun _ => ⟨true, ?_, ?_⟩, nofun⟩
    · split at hret
      · have hx : x = stt (t.item.message.audioPath.getD "") := by simpa [heard] using hret
        simp [heardText, hg, hs, htext, hx]
      · cases hret
    · split at hret
      · rename_i hmem
        have hp := ha.2 ⟨hg, hmem⟩
        exact hsame rfl (hp ▸ ha)
      · cases hret
  | unheard x hpc =>
    obtain ⟨htext, hg, hs⟩ := hok.fresh hpc
    have hret := hstt (by simp [hpc, Pc.transcribing])
    refine ⟨nofun, fun _ => ⟨false, ?_, ?_⟩, nofun⟩
    · simp [heardText, hg, hs, htext]
    · split at hret
      · cases hret
      · rename_i hmem
        refine hsame rfl ⟨hspared (by simp [hpc, Pc.transcribing]) hmem, ?_⟩
        intro hf
        exact absurd hf.2 hmem
  | unlinked hpc =>
    obtain ⟨p, ht, ha⟩ := hok.listened hpc
    exact afterAudio_ok ht (hsame rfl ha)
  | kept x hpc =>
    obtain ⟨p, ht, ha⟩ := hok.listened hpc
    exact afterAudio_ok ht (hsame rfl ha)
  | quiet r pc hin hout hrep =>
    obtain ⟨p, ht, ha⟩ := hok.prepared hin
    simp only [Bool.or_eq_true] at hout
    rcases hout with hout | hout
    · exact taskOk_in (p := p) hout ht (hsame rfl ha)
    · exact taskOk_out (by simp [hout])
  | hand hpc =>
    obtain ⟨p, ht, ha⟩ := hok.prepared (by rw [hpc]; rfl)
    refine taskOk_in (p := p) rfl ht ⟨?_, fun hf => ha.2 (hfile hf)⟩
    intro x hx hid
    rw [hhanded] at hx
    rcases List.mem_append.mp hx with hx | hx
    · exact ha.1 x hx hid
    · simp only [Effect.handed, List.mem_singleton] at hx
      subst hx
      show t.text.getD "" = _
      rw [ht]
      rfl
  | sent res d hpc =>
    obtain ⟨p, ht, ha⟩ := hok.prepared (by rw [hpc]; rfl)
    have he : Effect.handed t.item.id (if d then .deliver else .none) = [] := by
      cases d <;> rfl
    exact taskOk_in (p := p) rfl ht (hsame he ha)
  | acked hpc => exact taskOk_out rfl
  | ackLost x hpc => exact taskOk_out rfl
  | failed r x pc hpc hs => exact taskOk_out (by simp [hs])
  | failRefused x y hpc => exact taskOk_out rfl
  | notice r pc hpc hs => exact taskOk_out (by simp [hs])

/-! ## Every event -/

theorem init_inv : Inv cfg stt St.init := by
  refine ⟨?_, ?_, ?_⟩
  · intro t ht
    cases ht
  · intro r hr
    cases hr
  · intro x hx
    cases hx

/-- A row behind an event was there before, or is the one inserted. -/
theorem row_next {s t : St} {e : Ev} (hn : Next cfg s e t) {r : QueueRow} (hr : r ∈ t.queue.rows) :
    (∃ r0 ∈ s.queue.rows, r0.id = r.id ∧ r0.payload = r.payload) ∨
      ∃ m k now, e = .insert m k now ∧ r = Queue.newRow s.queue.nextId m k now := by
  have hset : ∀ {p : QueueRow → Bool} {set : QueueRow → QueueRow}, (∀ r, (set r).id = r.id) →
      (∀ r, (set r).payload = r.payload) → r ∈ s.queue.rows.map (fun r => if p r then set r else r) →
      ∃ r0 ∈ s.queue.rows, r0.id = r.id ∧ r0.payload = r.payload := by
    intro p set hid hpay hr
    rcases Queue.mem_set hr with ⟨hr, -⟩ | ⟨r0, h0, -, rfl⟩
    · exact ⟨r, hr, rfl, rfl⟩
    · exact ⟨r0, h0, (hid r0).symm, (hpay r0).symm⟩
  cases hn with
  | insert m k now hf =>
    rcases Queue.mem_enqueue.mp hr with hr | rfl
    · exact Or.inl ⟨r, hr, rfl, rfl⟩
    · exact Or.inr ⟨m, k, now, rfl, rfl⟩
  | retried id now => exact Or.inl (hset (by intro r; rfl) (by intro r; rfl) hr)
  | claimed k tie now c x pre post hs hx hp hrc => exact Or.inl (hset (by intro r; rfl) (by intro r; rfl) hr)
  | booted now hup => exact Or.inl (hset (by intro r; rfl) (by intro r; rfl) hr)
  | task k ret now t0 t' e pre post ht hs hst =>
    have hr : r ∈ (e.onQueue s.queue t0.item.id now).rows := hr
    cases e with
    | acknowledge => exact Or.inl (hset (by intro r; rfl) (by intro r; rfl) hr)
    | fail error => exact Or.inl (hset (by intro r; rfl) (by intro r; rfl) hr)
    | _ => exact Or.inl ⟨r, hr, rfl, rfl⟩
  | _ => exact Or.inl ⟨r, hr, rfl, rfl⟩

/-- An inserted message's audio file is no other row's. -/
theorem fresh_file {s : St} {m : InboundMessage} {k : Int} {now : Nat} (hf : freshAudio s m = true) {r : QueueRow}
    (hr : r ∈ s.queue.rows) (h : FileThere (insertRow s m k now) r.payload) : FileThere s r.payload := by
  refine ⟨h.1, ?_⟩
  have hmem : r.payload.audioPath.getD "" ∈ if given m.audioPath then s.audio ++ [m.audioPath.getD ""] else s.audio := h.2
  by_cases hg : given m.audioPath = true
  · simp only [hg, if_true, List.mem_append, List.mem_singleton] at hmem
    rcases hmem with hmem | heq
    · exact hmem
    · simp only [freshAudio, hg, Bool.not_true, Bool.false_or, Bool.and_eq_true, List.all_eq_true] at hf
      have hne := hf.2 r hr
      have hgr := h.1
      cases hm : m.audioPath with
      | none => simp [hm, given] at hg
      | some a =>
        cases hp : r.payload.audioPath with
        | none => simp [hp, given] at hgr
        | some b => simp [hm, hp] at heq hne; exact absurd heq hne
  · simpa [hg] using hmem

/-- A row stays, whatever the event. -/
theorem issued_next {s u : St} {e : Ev} {id : Nat} (hn : Next cfg s e u) (h : ∃ r ∈ s.queue.rows, r.id = id) :
    ∃ r ∈ u.queue.rows, r.id = id := by
  obtain ⟨r, hr, rfl⟩ := h
  obtain ⟨r', hr', hid, -⟩ := keeps_next hn r hr
  exact ⟨r', hr', hid⟩

/-- A task that hands a message holds its item, and is in the try block behind it. -/
theorem hand_step {t t' : Task} {r : Ret} {message : String} (h : t.step cfg r = some (t', .hand message)) :
    t.holds t.item.id = true ∧ t'.pc.inner = true := by
  have hm := Task.step_move h
  generalize he : Effect.hand message = e at hm
  cases hm with
  | hand hpc => simp [Task.holds, hpc, Pc.settled, Pc.inner, Pc.listening, Pc.failing]
  | sent res d hpc => cases d <;> cases he
  | _ => cases he

/-- While a task holds an item, every other task on it has its statement behind it. -/
theorem others_settled {s : St} {t x : Task} {pre post : List Task} (hh : Holders.Inv s) (hs : s.tasks = pre ++ t :: post)
    (hold : t.holds t.item.id = true) (hx : x ∈ pre ++ post) (hid : x.item.id = t.item.id) : x.pc.settled = true := by
  by_contra hset
  have hone := hh.one t.item.id
  have hpos : 0 < (pre ++ post).countP (Task.holds t.item.id) :=
    List.countP_pos_iff.mpr ⟨x, hx, by simp [Task.holds, hid, hset]⟩
  rw [List.countP_append] at hpos
  simp only [St.holders, hs, List.countP_append, List.countP_cons, hold, if_true] at hone
  omega

/-- What has been handed over was before, or is what this effect hands. -/
theorem mem_handed {l : List (Nat × String)} {e : Effect} {id : Nat} {y : Nat × String} (h : y ∈ l ++ e.handed id) :
    y ∈ l ∨ ((∃ message, e = .hand message) ∧ y.1 = id) := by
  rcases List.mem_append.mp h with h | h
  · exact Or.inl h
  · cases e with
    | hand message =>
      simp only [Effect.handed, List.mem_singleton] at h
      subst h
      exact Or.inr ⟨⟨message, rfl⟩, rfl⟩
    | _ => cases h

theorem task_next {s : St} {k now : Nat} {ret : Ret} {t0 t' : Task} {e : Effect} {pre post : List Task}
    (hb : Base s) (hh : Holders.Inv s) (h : Inv cfg stt s) (hk : s.tasks[k]? = some t0) (hs : s.tasks = pre ++ t0 :: post)
    (hst : t0.step cfg ret = some (t', e)) (hstt : SttOk stt s (.task k ret now))
    (hsp : Spared cfg stt s (.task k ret now)) :
    Inv cfg stt (perform { s with tasks := pre ++ t' :: post, interrupted := s.interrupted ++ cut t0 t' } t0.item.id now e) := by
  have hmem : t0 ∈ s.tasks := by simp [hs]
  obtain ⟨r0, h0, hid0, hpay0⟩ := hb.row t0.item (Or.inr ⟨t0, hmem, rfl⟩)
  have hrow : ∃ p, Agree cfg stt s t0.item.id t0.item.message p := by
    rw [← hid0, ← hpay0]
    exact h.row r0 h0
  have haudio : ∀ path ∈ e.onAudio s.audio, path ∈ s.audio := by
    intro path hp
    cases e with
    | unlink q => exact (List.mem_filter.mp hp).1
    | _ => exact hp
  have hitem := step_item hst
  generalize hu : perform { s with tasks := pre ++ t' :: post, interrupted := s.interrupted ++ cut t0 t' }
    t0.item.id now e = u
  have hut : u.tasks = pre ++ t' :: post := by rw [← hu]; rfl
  have huh : u.handed = s.handed ++ e.handed t0.item.id := by rw [← hu]; rfl
  have hua : ∀ path ∈ u.audio, path ∈ s.audio := by rw [← hu]; exact haudio
  have hok : TaskOk cfg stt u t' :=
    task_ok_step (h.task t0 hmem) hrow (hstt t0 hk) (hsp t0 hk) (Task.step_move hst) huh hua
  have hfile : ∀ {m}, FileThere u m → FileThere s m := fun hf => ⟨hf.1, hua _ hf.2⟩
  refine ⟨?_, ?_, ?_⟩
  · intro x hx
    rw [hut, List.mem_append, List.mem_cons] at hx
    by_cases hxt : x = t'
    · rw [hxt]
      exact hok
    have hx : x ∈ pre ++ post := by
      rw [List.mem_append]
      tauto
    have hxs : x ∈ s.tasks := mem_others hs hx
    by_cases hhand : (∃ message, e = .hand message) ∧ x.item.id = t0.item.id
    · obtain ⟨⟨message, rfl⟩, hid⟩ := hhand
      exact taskOk_out (by simp [others_settled hh hs (hand_step hst).1 hx hid])
    · refine (h.task x hxs).mono ?_ hfile
      intro y hy hyid
      rcases mem_handed (huh ▸ hy) with hy | ⟨hmessage, hy⟩
      · exact hy
      · exact absurd ⟨hmessage, hyid.symm.trans hy⟩ hhand
  · intro r hr
    have hnx : Next cfg s (.task k ret now) u := hu ▸ .task k ret now t0 t' e pre post hk hs hst
    rcases row_next hnx hr with ⟨r1, h1, hid, hpay⟩ | ⟨m, k', now', habs, -⟩
    · by_cases hhand : (∃ message, e = .hand message) ∧ r.id = t0.item.id
      · obtain ⟨⟨message, rfl⟩, hrid⟩ := hhand
        obtain ⟨p, -, ha⟩ := hok.prepared (hand_step hst).2
        have hp := hb.payload (Or.inr ⟨t0, hmem, rfl⟩) h1 (hid.trans hrid)
        refine ⟨p, ?_⟩
        rw [hrid, ← hpay, hp, ← hitem]
        exact ha
      · obtain ⟨p, ha⟩ := h.row r1 h1
        refine ⟨p, ?_⟩
        rw [← hid, ← hpay]
        refine ha.mono ?_ hfile
        intro y hy hyid
        rcases mem_handed (huh ▸ hy) with hy | ⟨hmessage, hy⟩
        · exact hy
        · exact absurd ⟨hmessage, (hyid.trans hid).symm.trans hy⟩ hhand
    · cases habs
  · intro x hx
    have hnx : Next cfg s (.task k ret now) u := hu ▸ .task k ret now t0 t' e pre post hk hs hst
    refine issued_next hnx ?_
    rcases mem_handed (huh ▸ hx) with hx | ⟨_, hx⟩
    · exact h.issued x hx
    · exact ⟨r0, h0, hid0.trans hx.symm⟩

/-- An event that hands nothing and touches no file. -/
theorem same_next {s u : St} {e : Ev} (h : Inv cfg stt s) (hn : Next cfg s e u)
    (htask : ∀ x ∈ u.tasks, x ∈ s.tasks) (hhand : u.handed = s.handed) (haudio : u.audio = s.audio)
    (hno : ∀ m k now, e ≠ .insert m k now) : Inv cfg stt u := by
  have hfile : ∀ {m}, FileThere u m → FileThere s m := fun hf => ⟨hf.1, haudio ▸ hf.2⟩
  refine ⟨?_, ?_, ?_⟩
  · intro x hx
    exact (h.task x (htask x hx)).mono (fun y hy _ => hhand ▸ hy) hfile
  · intro r hr
    rcases row_next hn hr with ⟨r0, h0, hid, hpay⟩ | ⟨m, k, now, habs, -⟩
    · obtain ⟨p, ha⟩ := h.row r0 h0
      refine ⟨p, ?_⟩
      rw [← hid, ← hpay]
      exact ha.mono (fun y hy _ => hhand ▸ hy) hfile
    · exact absurd habs (hno m k now)
  · intro x hx
    exact issued_next hn (h.issued x (hhand ▸ hx))

theorem insert_next {s : St} {m : InboundMessage} {k : Int} {now : Nat} (hb : Base s) (h : Inv cfg stt s)
    (hf : freshAudio s m = true) : Inv cfg stt (insertRow s m k now) := by
  refine ⟨?_, ?_, ?_⟩
  · intro x hx
    obtain ⟨r, hr, -, hpay⟩ := hb.row x.item (Or.inr ⟨x, hx, rfl⟩)
    refine (h.task x hx).mono (fun y hy _ => hy) ?_
    rw [← hpay]
    exact fresh_file hf hr
  · intro r hr
    rcases Queue.mem_enqueue.mp hr with hr | rfl
    · obtain ⟨p, ha⟩ := h.row r hr
      exact ⟨p, ha.mono (fun y hy _ => hy) (fresh_file hf hr)⟩
    · refine ⟨true, ?_, fun _ => rfl⟩
      intro x hx hid
      obtain ⟨r, hr, hrid⟩ := h.issued x hx
      have hlt := s.queue.below r hr
      have heq : x.1 = s.queue.nextId := hid
      omega
  · intro x hx
    obtain ⟨r, hr, hrid⟩ := h.issued x hx
    exact ⟨r, Queue.mem_enqueue.mpr (Or.inl hr), hrid⟩

theorem inv_next {s u : St} {e : Ev} (hb : Base s) (hh : Holders.Inv s) (h : Inv cfg stt s) (hn : Next cfg s e u)
    (hstt : SttOk stt s e) (hsp : Spared cfg stt s e) : Inv cfg stt u := by
  have hn' := hn
  cases hn with
  | insert m k now hf => exact insert_next hb h hf
  | task k ret now t0 t' e pre post hk hs hst => exact task_next hb hh h hk hs hst hstt hsp
  | begun k c it pre post hs =>
    obtain ⟨r, hr, hid, hpay⟩ := hb.row it (Or.inl ⟨⟨c, some (some it)⟩, by simp [hs], rfl⟩)
    obtain ⟨p, ha⟩ := h.row r hr
    rw [hid, hpay] at ha
    refine ⟨?_, h.row, h.issued⟩
    intro x hx
    rcases List.mem_append.mp hx with hx | hx
    · exact (h.task x hx).mono (fun y hy _ => hy) fun hf => hf
    · rw [List.mem_singleton.mp hx]
      exact start_ok ha
  | finished k t0 pre post hs hpc =>
    refine same_next h hn' ?_ rfl rfl (by intro m k now he; cases he)
    intro x hx
    exact mem_others hs hx
  | died hup => exact same_next h hn' (fun x hx => by cases hx) rfl rfl (by intro m k now he; cases he)
  | _ => exact same_next h hn' (fun x hx => hx) rfl rfl (by intro m k now he; cases he)

/-! ## All attempts say the same -/

/-- In every run in which no transcription is asked for a file that is gone when an
    earlier attempt handed the item with another message, all attempts of an item hand
    the runtime the same task message. -/
theorem same_message (cfg : Config) (stt : String → String) (s : St)
    (h : Reach (machine cfg) (fun s e => SttOk stt s e ∧ Spared cfg stt s e) s) : SameMessage s := by
  have hinv : Inv cfg stt s := by
    refine h.inv (I := Inv cfg stt) init_inv ?_
    intro s e u hr hi hc hst
    exact inv_next (base hr) (Holders.inv hr) hi (step_next hst) hc.1 hc.2
  intro id a b ha hb
  obtain ⟨r, hr, hid⟩ := hinv.issued _ ha
  obtain ⟨p, hagree, -⟩ := hinv.row r hr
  exact (hagree _ ha hid.symm).trans (hagree _ hb hid.symm).symm

instance (stt : String → String) (s : St) : ∀ e, Decidable (SttOk stt s e)
  | .task k ret _ => inferInstanceAs (Decidable (∀ t ∈ s.tasks[k]?, t.pc.transcribing = true → heard ret =
      if t.item.message.audioPath.getD "" ∈ s.audio then some (stt (t.item.message.audioPath.getD "")) else none))
  | .insert .. | .retryDeadLetter .. | .notify _ | .claim .. | .resume _ | .reject _ | .finish _ | .start | .subscribed _
  | .query .. | .drainPending _ | .stop | .drained _ | .drainTimeout _ | .stopReturn _ | .crash | .boot _ =>
    inferInstanceAs (Decidable True)

instance (cfg : Config) (stt : String → String) (s : St) : ∀ e, Decidable (Spared cfg stt s e)
  | .task k _ _ => inferInstanceAs (Decidable (∀ t ∈ s.tasks[k]?, t.pc.transcribing = true →
      t.item.message.audioPath.getD "" ∉ s.audio → ∀ x ∈ s.handed, x.1 = t.item.id →
        x.2 = taskMessage cfg stt false t.item.message))
  | .insert .. | .retryDeadLetter .. | .notify _ | .claim .. | .resume _ | .reject _ | .finish _ | .start | .subscribed _
  | .query .. | .drainPending _ | .stop | .drained _ | .drainTimeout _ | .stopReturn _ | .crash | .boot _ =>
    inferInstanceAs (Decidable True)

def voiceCfg : Config := ⟨5, true, true, true⟩

def voice : InboundMessage :=
  ⟨"1", .telegram, "tg:1", "Ada", none, some "/downloads/a.ogg", none, none, 0, false⟩

/-- What the service hears in every file. -/
def hello (_ : String) : String := "hello"

/-- A voice message is taken up, transcribed, its unlink comes back with `unlinked`, and
    it is handed over. -/
def firstAttempt (unlinked : Ret) : List Ev :=
  Slots.comeUp ++ [.insert voice 3 0, .notify 0, .claim 0 0 0, .resume 0] ++
    [.transcript "hello", unlinked, .ok, .missing, .ok, .ok, .ok].map (.task 0 · 0)

/-- The runtime throws, the item goes back, and the second attempt hears `again`. -/
def secondAttempt (again unlinked : Ret) : List Ev :=
  [.task 0 (.threw "container exited") 0, .task 0 .ok 0, .finish 0, .claim 0 0 0, .resume 0] ++
    [again, unlinked, .ok, .missing, .ok, .ok, .ok].map (.task 0 · 0)

/-- The first attempt's unlink fails, so the second finds the file. -/
theorem a_kept_file_is_heard_again : ∃ s,
    exec (machine voiceCfg) St.init (firstAttempt (.threw "EBUSY") ++ secondAttempt (.transcript "hello") .ok) = some s ∧
      s.handed.map (·.1) = [1, 1] ∧ SameMessage s := by
  refine ⟨_, rfl, by decide, same_message voiceCfg hello _
    (reach_of_exec (firstAttempt (.threw "EBUSY") ++ secondAttempt (.transcript "hello") .ok) ?_ rfl)⟩
  decide

theorem a_retried_voice_message_changes :
    ∃ s, Reach (machine voiceCfg) (SttOk hello) s ∧ ¬ SameMessage s := by
  refine ⟨_, reach_of_exec (firstAttempt .ok ++ secondAttempt (.threw "ENOENT") (.threw "ENOENT")) (by decide) rfl, ?_⟩
  intro h
  have heq := h 1 (taskMessage voiceCfg hello true voice) (taskMessage voiceCfg hello false voice)
    (by decide) (by decide)
  exact absurd heq (by decide)

end

end FlowHelm.Orchestrator.Retry
