/-
  FlowHelm.Lib.SlidingWindow — how many of some moments fall into a stretch of time.

  A stretch is closed at its start and open at its end, so that stretches next to each other
  share no moment. What is admitted only while fewer than `limit` of the moments kept are
  recent, and is kept from then on, is paced, however the others are dropped.

  - `Paced.push`: one more moment.
  - `Paced.weaken`: for a larger limit, or a shorter stretch.
  - `recent_sublist`: what is recent later was recent before.
  - `Alike.later` / `Alike.prune`: lists with the same recent moments, whatever else is dropped.
  - `recent_before` / `recent_after`: of sorted moments the oldest goes first.
  - `Spaced.room`: moments with enough between them never fill a window.
-/

namespace SlidingWindow

/-- The moments no older than `window`. -/
def recent (window now : Nat) (times : List Nat) : List Nat := times.filter fun t => decide (now < t + window)

/-- At most `limit` of the moments in every stretch of `window`. -/
def Paced (limit window : Nat) (times : List Nat) : Prop :=
  ∀ start, times.countP (fun t => decide (start ≤ t ∧ t < start + window)) ≤ limit

theorem paced_nil (limit window : Nat) : Paced limit window [] := fun _ => Nat.zero_le _

theorem Paced.sublist {limit window : Nat} {times part : List Nat} (h : Paced limit window times) (hpart : part.Sublist times) :
    Paced limit window part := fun start => Nat.le_trans hpart.countP_le (h start)

/-- What is paced is paced for who asks for less. -/
theorem Paced.weaken {limit limit' window window' : Nat} {times : List Nat} (h : Paced limit window times)
    (hlimit : limit ≤ limit') (hwindow : window' ≤ window) : Paced limit' window' times := by
  intro start
  have hle : times.countP (fun t => decide (start ≤ t ∧ t < start + window')) ≤
      times.countP fun t => decide (start ≤ t ∧ t < start + window) := by
    refine List.countP_mono_left fun t _ hin => ?_
    obtain ⟨hstart, hend⟩ := of_decide_eq_true hin
    exact decide_eq_true ⟨hstart, by omega⟩
  have hpaced := h start
  omega

theorem recent_append (window now : Nat) (times more : List Nat) :
    recent window now (times ++ more) = recent window now times ++ recent window now more := List.filter_append ..

theorem recent_self {window now : Nat} (h : 0 < window) : recent window now [now] = [now] := by
  unfold recent
  rw [List.filter_cons, if_pos (decide_eq_true (by omega)), List.filter_nil]

/-- What is recent later, or in a shorter stretch, is recent among what was recent before. -/
theorem recent_recent {window wider earlier now : Nat} (hwindow : window ≤ wider) (h : earlier ≤ now) (times : List Nat) :
    recent window now (recent wider earlier times) = recent window now times := by
  unfold recent
  rw [List.filter_filter]
  refine List.filter_congr fun t _ => ?_
  by_cases ht : now < t + window
  · have hearlier : earlier < t + wider := by omega
    simp [ht, hearlier]
  · simp [ht]

theorem recent_sublist {window earlier now : Nat} (h : earlier ≤ now) {times kept : List Nat}
    (hkept : (recent window earlier times).Sublist kept) : (recent window now times).Sublist (recent window now kept) := by
  rw [← recent_recent (Nat.le_refl window) h times]
  exact hkept.filter _

theorem Paced.push {limit window now : Nat} {times : List Nat} (h : Paced limit window times)
    (hroom : (recent window now times).length < limit) : Paced limit window (times ++ [now]) := by
  intro start
  rw [List.countP_append]
  by_cases hnow : start ≤ now ∧ now < start + window
  · -- the others of the stretch are recent
    have hle : times.countP (fun t => decide (start ≤ t ∧ t < start + window)) ≤ (recent window now times).length := by
      unfold recent
      rw [← List.countP_eq_length_filter]
      refine List.countP_mono_left fun t ht hin => ?_
      obtain ⟨hstart, -⟩ := of_decide_eq_true hin
      refine decide_eq_true ?_
      omega
    have hone : [now].countP (fun t => decide (start ≤ t ∧ t < start + window)) ≤ 1 := List.countP_le_length
    omega
  · have hzero : [now].countP (fun t => decide (start ≤ t ∧ t < start + window)) = 0 := by
      rw [List.countP_eq_zero]
      intro t ht hin
      rw [List.mem_singleton.mp ht] at hin
      exact hnow (of_decide_eq_true hin)
    have hle := h start
    omega

/-! ## What may be dropped -/

/-- At `now` the same moments of both are recent. -/
def Alike (window now : Nat) (kept times : List Nat) : Prop := recent window now kept = recent window now times

theorem Alike.refl (window now : Nat) (times : List Nat) : Alike window now times times := rfl

/-- They stay alike, and to who looks back less far. -/
theorem Alike.later {window wider earlier now : Nat} {kept times : List Nat} (h : Alike wider earlier kept times)
    (hwindow : window ≤ wider) (hnow : earlier ≤ now) : Alike window now kept times := by
  unfold Alike at h ⊢
  rw [← recent_recent hwindow hnow kept, h, recent_recent hwindow hnow]

/-- Dropping what is not recent to someone who looks back at least as far. -/
theorem Alike.prune {window wider now : Nat} {kept times : List Nat} (h : Alike window now kept times)
    (hwindow : window ≤ wider) : Alike window now (recent wider now kept) times := by
  unfold Alike
  rw [recent_recent hwindow (Nat.le_refl now)]
  exact h

theorem Alike.append {window now : Nat} {kept times : List Nat} (h : Alike window now kept times) (more : List Nat) :
    Alike window now (kept ++ more) (times ++ more) := by
  unfold Alike
  rw [recent_append, recent_append, h]

/-! ## When the oldest goes -/

theorem recent_sorted {window now : Nat} {times : List Nat} (h : times.Pairwise (· ≤ ·)) :
    (recent window now times).Pairwise (· ≤ ·) :=
  h.sublist List.filter_sublist

/-- Until the oldest goes, all are still recent. -/
theorem recent_before {window now oldest : Nat} {rest : List Nat} (h : (oldest :: rest).Pairwise (· ≤ ·))
    (hnow : now < oldest + window) : recent window now (oldest :: rest) = oldest :: rest := by
  refine List.filter_eq_self.mpr fun t ht => decide_eq_true ?_
  rcases List.mem_cons.mp ht with rfl | ht
  · exact hnow
  · have hle := List.rel_of_pairwise_cons h ht
    omega

/-- And then there is one less. -/
theorem recent_after {window now oldest : Nat} (rest : List Nat) (hnow : oldest + window ≤ now) :
    (recent window now (oldest :: rest)).length ≤ rest.length := by
  unfold recent
  rw [List.filter_cons_of_neg (by simpa using hnow)]
  exact List.length_filter_le _ _

/-! ## Moments with enough between them -/

def Spaced (gap : Nat) (times : List Nat) : Prop := times.Pairwise fun a b => a + gap ≤ b

theorem Spaced.recent {gap : Nat} {times : List Nat} (h : Spaced gap times) (window now : Nat) :
    Spaced gap (recent window now times) := h.sublist List.filter_sublist

theorem Spaced.push {gap now : Nat} {times : List Nat} (h : Spaced gap times) (hnow : ∀ t ∈ times, t + gap ≤ now) :
    Spaced gap (times ++ [now]) := by
  refine List.pairwise_append.mpr ⟨h, List.pairwise_singleton .., fun t ht now' hnow' => ?_⟩
  rw [List.mem_singleton.mp hnow']
  exact hnow t ht

/-- As many gaps have passed since the first. -/
theorem Spaced.span {gap now first : Nat} {rest : List Nat} (h : Spaced gap (first :: rest))
    (hnow : ∀ t ∈ first :: rest, t + gap ≤ now) : first + (rest.length + 1) * gap ≤ now := by
  induction rest generalizing first with
  | nil =>
    have hfirst := hnow first (List.mem_singleton_self first)
    simpa using hfirst
  | cons second rest ih =>
    have hgap : first + gap ≤ second := List.rel_of_pairwise_cons h (List.mem_cons_self ..)
    have hrest := ih h.of_cons fun t ht => hnow t (List.mem_cons_of_mem _ ht)
    rw [List.length_cons, Nat.add_mul (rest.length + 1), Nat.one_mul]
    omega

/-- A window no longer than `limit` gaps has room for one more, a gap after the last. -/
theorem Spaced.room {gap limit window now : Nat} {times : List Nat} (h : Spaced gap times) (hnow : ∀ t ∈ times, t + gap ≤ now)
    (hwindow : window ≤ limit * gap) (hlimit : 0 < limit) : (SlidingWindow.recent window now times).length < limit := by
  cases hrecent : SlidingWindow.recent window now times with
  | nil => exact hlimit
  | cons first rest =>
    have hmem : ∀ t ∈ first :: rest, t ∈ times ∧ now < t + window := by
      intro t ht
      rw [← hrecent] at ht
      exact ⟨(List.mem_filter.mp ht).1, of_decide_eq_true (List.mem_filter.mp ht).2⟩
    have hspaced : Spaced gap (first :: rest) := hrecent ▸ h.recent window now
    have hspan := hspaced.span fun t ht => hnow t (hmem t ht).1
    have hfirst := (hmem first (List.mem_cons_self ..)).2
    rw [List.length_cons]
    refine Nat.lt_of_not_le fun hfull => ?_
    have hmul := Nat.mul_le_mul_right gap hfull
    omega

end SlidingWindow
