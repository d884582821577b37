/-
  FlowHelm.Lib.Renaming — rows of a table copied under new keys.

  A renaming is the list of (old key, new key) pairs a copying loop has drawn, the latest
  first. `Copies` says that a table holds what it held, and a copy of each row the renaming
  names under the key it gives. `Copied` is what a reader wants to know afterwards: the
  renaming is a bijection from one owner's keys to another's, and each row's copy is there.

  - `Copies.cons` / `copies_zip`: one more copy; a whole statement's copies at once.
  - `Copies.copied` / `copied_zip`: from either to the bijection.
-/
import Mathlib.Data.List.Nodup
import Mathlib.Data.Set.Function

namespace Renaming

variable {K O R : Type} [DecidableEq K]

/-- The key a renaming gives, an unnamed key staying as it is. -/
def rename (m : List (K × K)) (k : K) : K := (m.lookup k).getD k

theorem mem_iff_lookup {m : List (K × K)} (hm : (m.map Prod.fst).Nodup) {k v : K} : (k, v) ∈ m ↔ m.lookup k = some v := by
  induction m with
  | nil => simp
  | cons e m ih =>
    obtain ⟨a, b⟩ := e
    simp only [List.map_cons, List.nodup_cons] at hm
    by_cases hk : k = a
    · subst hk
      have hnot : (k, v) ∉ m := fun h => hm.1 (List.mem_map_of_mem (f := Prod.fst) h)
      simp [hnot, eq_comm]
    · have hb : (k == a) = false := by simpa using hk
      simp [hk, ih hm.2, List.lookup_cons, hb]

theorem rename_of_mem {m : List (K × K)} (hm : (m.map Prod.fst).Nodup) {k v : K} (h : (k, v) ∈ m) : rename m k = v := by
  unfold rename
  rw [(mem_iff_lookup hm).mp h]
  rfl

theorem mem_rename {m : List (K × K)} (hm : (m.map Prod.fst).Nodup) {k : K} (h : k ∈ m.map Prod.fst) :
    (k, rename m k) ∈ m := by
  obtain ⟨⟨a, b⟩, he, rfl⟩ := List.mem_map.mp h
  rw [rename_of_mem hm he]
  exact he

/-- Distinct keys get distinct ones. -/
theorem rename_inj {m : List (K × K)} (hm : (m.map Prod.fst).Nodup) (hv : (m.map Prod.snd).Nodup) {a b : K}
    (ha : a ∈ m.map Prod.fst) (hb : b ∈ m.map Prod.fst) (h : rename m a = rename m b) : a = b :=
  congrArg Prod.fst (List.inj_on_of_nodup_map hv (mem_rename hm ha) (mem_rename hm hb) h)

section Rows

variable (key : R → K) (copy : R → K → R)

/-- `rows` holds `old` and the copies `m` names. -/
structure Copies (old rows : List R) (m : List (K × K)) : Prop where
  mem : ∀ q, q ∈ rows ↔ q ∈ old ∨ ∃ r ∈ old, ∃ v, (key r, v) ∈ m ∧ q = copy r v
  drawn : ∀ e ∈ m, e.2 ∈ rows.map key
  values : (m.map Prod.snd).Nodup

variable {key copy}

omit [DecidableEq K] in
theorem copies_nil (old : List R) : Copies key copy old old [] := ⟨by simp, by simp, by simp⟩

/-- The one row of a key. -/
theorem filter_key {rows : List R} (hk : (rows.map key).Nodup) {r : R} (hr : r ∈ rows) :
    rows.filter (key · == key r) = [r] := by
  induction rows with
  | nil => cases hr
  | cons a rows ih =>
    simp only [List.map_cons, List.nodup_cons] at hk
    rcases List.mem_cons.mp hr with rfl | hr
    · have hnone : rows.filter (key · == key r) = [] := by
        rw [List.filter_eq_nil_iff]
        intro q hq hqr
        exact hk.1 (List.mem_map.mpr ⟨q, hq, by simpa using hqr⟩)
      simp [hnone]
    · have hne : key a ≠ key r := fun h => hk.1 (List.mem_map.mpr ⟨r, hr, h.symm⟩)
      simp [hne, ih hk.2 hr]

omit [DecidableEq K] in
theorem Copies.cons {old rows : List R} {m : List (K × K)} (h : Copies key copy old rows m) (hold : (old.map key).Nodup)
    {r : R} (hr : r ∈ old) {v : K} (hkey : key (copy r v) = v) (hv : v ∉ rows.map key) :
    Copies key copy old (copy r v :: rows) ((key r, v) :: m) := by
  refine ⟨?_, ?_, ?_⟩
  · intro q
    simp only [List.mem_cons, h.mem q, Prod.mk.injEq]
    constructor
    · intro hq
      rcases hq with rfl | hq | ⟨r', hr', w, hw, rfl⟩
      · exact Or.inr ⟨r, hr, v, Or.inl ⟨rfl, rfl⟩, rfl⟩
      · exact Or.inl hq
      · exact Or.inr ⟨r', hr', w, Or.inr hw, rfl⟩
    · intro hq
      rcases hq with hq | ⟨r', hr', w, ⟨hk, rfl⟩ | hw, rfl⟩
      · exact Or.inr (Or.inl hq)
      · rw [List.inj_on_of_nodup_map hold hr' hr hk]
        exact Or.inl rfl
      · exact Or.inr (Or.inr ⟨r', hr', w, hw, rfl⟩)
  · intro e he
    rcases List.mem_cons.mp he with rfl | he
    · exact List.mem_map.mpr ⟨_, .head _, hkey⟩
    · exact List.mem_cons_of_mem _ (h.drawn e he)
  · rw [List.map_cons, List.nodup_cons]
    refine ⟨?_, h.values⟩
    intro hmem
    obtain ⟨e, he, rfl⟩ := List.mem_map.mp hmem
    exact hv (h.drawn e he)

omit [DecidableEq K] in
/-- The copies of one statement, the rows `picked` getting the keys `vs` in their order. -/
theorem copies_zip {old picked : List R} {vs : List K} (hold : (old.map key).Nodup) (hpick : picked.Sublist old)
    (hlen : vs.length = picked.length) (hkey : ∀ r v, key (copy r v) = v)
    (hnew : ((picked.zipWith copy vs ++ old).map key).Nodup) :
    Copies key copy old (picked.zipWith copy vs ++ old) ((picked.map key).zip vs) := by
  induction picked generalizing vs with
  | nil => simpa using copies_nil old
  | cons r picked ih =>
    cases vs with
    | nil => cases hlen
    | cons v vs =>
      simp only [List.zipWith_cons_cons, List.cons_append, List.map_cons, List.nodup_cons, hkey] at hnew
      have hrest := ih ((List.sublist_cons_self r picked).trans hpick) (Nat.succ.inj hlen) hnew.2
      exact hrest.cons hold (hpick.subset (.head _)) (hkey r v) hnew.1

variable (key) in
/-- The rows of `source` in `old` and those of `new` in `rows` are the same, their keys and
    what `Same` leaves out aside; those of others are as they were. -/
structure Copied (owner : R → O) (Same : R → R → Prop) (source new : O) (σ : K → K) (old rows : List R) : Prop where
  bij : Set.BijOn σ {k | ∃ r ∈ old, owner r = source ∧ key r = k} {k | ∃ r ∈ rows, owner r = new ∧ key r = k}
  same : ∀ r ∈ old, owner r = source → ∃ q ∈ rows, owner q = new ∧ key q = σ (key r) ∧ Same r q
  others : ∀ r, owner r ≠ new → (r ∈ rows ↔ r ∈ old)

/-- The keys a renaming of all the rows of `source` has. -/
def Names (key : R → K) (owner : R → O) (source : O) (old : List R) (m : List (K × K)) : Prop :=
  (m.map Prod.fst).Nodup ∧ ∀ k, k ∈ m.map Prod.fst ↔ ∃ r ∈ old, owner r = source ∧ key r = k

omit [DecidableEq K] in
/-- Another owner's keys are as they were. -/
theorem Copied.keys {owner : R → O} {Same : R → R → Prop} {source new : O} {σ : K → K} {old rows : List R}
    (h : Copied key owner Same source new σ old rows) {o : O} (ho : o ≠ new) (k : K) :
    (∃ r ∈ rows, owner r = o ∧ key r = k) ↔ ∃ r ∈ old, owner r = o ∧ key r = k := by
  constructor
  · intro hr
    obtain ⟨r, hr, rfl, hk⟩ := hr
    exact ⟨r, (h.others r ho).mp hr, rfl, hk⟩
  · intro hr
    obtain ⟨r, hr, rfl, hk⟩ := hr
    exact ⟨r, (h.others r ho).mpr hr, rfl, hk⟩

theorem Copies.copied {old rows : List R} {m : List (K × K)} (h : Copies key copy old rows m) {owner : R → O}
    {Same : R → R → Prop} {source new : O} (hm : Names key owner source old m) (hold : (old.map key).Nodup)
    (hnew : ∀ r ∈ old, owner r ≠ new)
    (hcopy : ∀ r v, key (copy r v) = v ∧ owner (copy r v) = new ∧ Same r (copy r v)) :
    Copied key owner Same source new (rename m) old rows := by
  obtain ⟨hkeys, hnames⟩ := hm
  have hthere : ∀ r ∈ old, owner r = source → copy r (rename m (key r)) ∈ rows := by
    intro r hr hs
    exact (h.mem _).mpr (Or.inr ⟨r, hr, _, mem_rename hkeys ((hnames _).mpr ⟨r, hr, hs, rfl⟩), rfl⟩)
  have hfrom : ∀ q ∈ rows, owner q = new → ∃ r ∈ old, owner r = source ∧ q = copy r (rename m (key r)) := by
    intro q hq ho
    rcases (h.mem q).mp hq with hq | ⟨r, hr, v, hv, rfl⟩
    · exact (hnew q hq ho).elim
    · obtain ⟨r', hr', hs', hk'⟩ := (hnames (key r)).mp (List.mem_map_of_mem (f := Prod.fst) hv)
      obtain rfl := List.inj_on_of_nodup_map hold hr' hr hk'
      exact ⟨r', hr', hs', by rw [rename_of_mem hkeys hv]⟩
  refine ⟨⟨?_, ?_, ?_⟩, ?_, ?_⟩
  · intro k hk
    obtain ⟨r, hr, hs, rfl⟩ := hk
    exact ⟨_, hthere r hr hs, (hcopy r _).2.1, (hcopy r _).1⟩
  · intro a ha b hb hab
    exact rename_inj hkeys h.values ((hnames a).mpr ha) ((hnames b).mpr hb) hab
  · intro k hk
    obtain ⟨q, hq, ho, rfl⟩ := hk
    obtain ⟨r, hr, hs, rfl⟩ := hfrom q hq ho
    exact ⟨key r, ⟨r, hr, hs, rfl⟩, (hcopy r _).1.symm⟩
  · intro r hr hs
    exact ⟨_, hthere r hr hs, (hcopy r _).2.1, (hcopy r _).1, (hcopy r _).2.2⟩
  · intro q ho
    rw [h.mem q]
    constructor
    · intro hq
      rcases hq with hq | ⟨r, _, v, _, rfl⟩
      · exact hq
      · exact (ho (hcopy r v).2.1).elim
    · exact Or.inl

/-- A statement that copies all the rows of `source`. -/
theorem copied_zip [DecidableEq O] {owner : R → O} {Same : R → R → Prop} {source new : O} {old : List R} {vs : List K}
    (hlen : vs.length = (old.filter (owner · == source)).length) (hold : (old.map key).Nodup)
    (hrows : (((old.filter (owner · == source)).zipWith copy vs ++ old).map key).Nodup)
    (hnew : ∀ r ∈ old, owner r ≠ new)
    (hcopy : ∀ r v, key (copy r v) = v ∧ owner (copy r v) = new ∧ Same r (copy r v)) :
    ∃ ι, Copied key owner Same source new ι old ((old.filter (owner · == source)).zipWith copy vs ++ old) := by
  have hcopies := copies_zip hold List.filter_sublist hlen (fun r v => (hcopy r v).1) hrows
  refine ⟨_, hcopies.copied ⟨?_, ?_⟩ hold hnew hcopy⟩
  · rw [List.map_fst_zip (by simp [hlen])]
    exact hold.sublist (List.filter_sublist.map key)
  · intro k
    rw [List.map_fst_zip (by simp [hlen])]
    simp only [List.mem_map, List.mem_filter, beq_iff_eq, and_assoc]

end Rows

end Renaming
