/-
  FlowHelm.Lib.FileTree — directory trees, and the recursive copy that goes over what is there.

  A directory is the list of its entries, no two of one name. `N` are the names, `C` what a file
  holds; a file is told by the names that lead to it. A copy fails where a file stands in the place
  of a directory or the other way round.

  - `fileAt_copyInto`: after a copy, a file is the source's, else the one that was there.
-/
import Mathlib.Data.List.Basic
import Mathlib.Data.Option.Basic

namespace FileTree

/-- The entries of a directory. -/
inductive Entries (N C : Type) where
  | none
  | file (name : N) (content : C) (rest : Entries N C)
  | dir (name : N) (below rest : Entries N C)
  deriving DecidableEq

namespace Entries

variable {N C : Type}

def names : Entries N C → List N
  | none => []
  | file n _ rest => n :: rest.names
  | dir n _ rest => n :: rest.names

def Valid : Entries N C → Prop
  | none => True
  | file n _ rest => n ∉ rest.names ∧ rest.Valid
  | dir n below rest => n ∉ rest.names ∧ below.Valid ∧ rest.Valid

variable [DecidableEq N]

instance decidableValid : (d : Entries N C) → Decidable d.Valid
  | none => inferInstanceAs (Decidable True)
  | file _ _ rest => have := rest.decidableValid; inferInstanceAs (Decidable (_ ∧ _))
  | dir _ below rest => have := below.decidableValid; have := rest.decidableValid; inferInstanceAs (Decidable (_ ∧ _ ∧ _))

def fileAt : Entries N C → List N → Option C
  | none, _ => .none
  | file n c rest, p => if p = [n] then some c else rest.fileAt p
  | dir _ _ _, [] => .none
  | dir n below rest, m :: q => if m = n then below.fileAt q else rest.fileAt (m :: q)

/-- The directory of a name. -/
def dir? (n : N) : Entries N C → Option (Entries N C)
  | none => .none
  | file m _ rest => if m = n then .none else rest.dir? n
  | dir m below rest => if m = n then some below else rest.dir? n

/-! ## Changing one entry -/

/-- The directory of a name, made if need be; `none` when a file has the name. -/
def mkdir (n : N) : Entries N C → Option (Entries N C)
  | none => some none
  | file m _ rest => if m = n then .none else rest.mkdir n
  | dir m below rest => if m = n then some below else rest.mkdir n

def setDir (d : Entries N C) (n : N) (below : Entries N C) : Entries N C := match d with
  | none => dir n below none
  | file m c rest => if m = n then dir n below rest else file m c (rest.setDir n below)
  | dir m there rest => if m = n then dir n below rest else dir m there (rest.setDir n below)

/-- `none` when a directory has the name. -/
def copyFile (n : N) (c : C) : Entries N C → Option (Entries N C)
  | none => some (file n c none)
  | file m c' rest => if m = n then some (file n c rest) else (rest.copyFile n c).map (file m c')
  | dir m below rest => if m = n then .none else (rest.copyFile n c).map (dir m below)

/-- `rm -rf`. -/
def remove (n : N) : Entries N C → Entries N C
  | none => none
  | file m c rest => if m = n then rest else file m c (rest.remove n)
  | dir m below rest => if m = n then rest else dir m below (rest.remove n)

/-! ## Copying -/

/-- The entries of the first, copied into the second. -/
def copyInto : Entries N C → Entries N C → Option (Entries N C)
  | none, dest => some dest
  | file n c rest, dest => (dest.copyFile n c).bind rest.copyInto
  | dir n below rest, dest =>
    ((dest.mkdir n).bind fun there => (below.copyInto there).map (dest.setDir n ·)).bind rest.copyInto

/-- A directory copied to the name `n` in `dest`. -/
def copyDir (src : Entries N C) (n : N) (dest : Entries N C) : Option (Entries N C) :=
  (dest.mkdir n).bind fun there => (src.copyInto there).map (dest.setDir n ·)

/-! ## What is where -/

@[simp] theorem fileAt_nil (d : Entries N C) : d.fileAt [] = .none := by
  induction d with
  | none => rfl
  | file n c rest ih => rw [fileAt, if_neg (List.cons_ne_nil _ _).symm, ih]
  | dir n below rest => rfl

theorem fileAt_of_not_mem {d : Entries N C} {n : N} (h : n ∉ d.names) (q : List N) : d.fileAt (n :: q) = .none := by
  induction d with
  | none => rfl
  | file m c rest ih =>
    rw [names, List.mem_cons, not_or] at h
    rw [fileAt, if_neg fun heq => h.1 (List.cons.inj heq).1, ih h.2]
  | dir m below rest _ ih =>
    rw [names, List.mem_cons, not_or] at h
    rw [fileAt, if_neg h.1, ih h.2]

theorem dir?_of_not_mem {d : Entries N C} {n : N} (h : n ∉ d.names) : d.dir? n = .none := by
  induction d with
  | none => rfl
  | file m c rest ih =>
    rw [names, List.mem_cons, not_or] at h
    rw [dir?, if_neg fun heq => h.1 heq.symm, ih h.2]
  | dir m below rest _ ih =>
    rw [names, List.mem_cons, not_or] at h
    rw [dir?, if_neg fun heq => h.1 heq.symm, ih h.2]

theorem fileAt_mkdir {d there : Entries N C} {n : N} (h : d.mkdir n = some there) (q : List N) :
    d.fileAt (n :: q) = there.fileAt q := by
  induction d with
  | none =>
    obtain rfl := Option.some.inj h
    rfl
  | file m c rest ih =>
    rw [mkdir] at h
    split at h
    · cases h
    · rename_i hne
      rw [fileAt, if_neg fun heq => hne (List.cons.inj heq).1.symm, ih h]
  | dir m below rest _ ih =>
    rw [mkdir] at h
    split at h
    · rename_i heq
      obtain rfl := Option.some.inj h
      rw [fileAt, if_pos heq.symm]
    · rename_i hne
      rw [fileAt, if_neg fun heq => hne heq.symm, ih h]

theorem mkdir_eq_dir? {d below : Entries N C} {n : N} (h : d.dir? n = some below) : d.mkdir n = some below := by
  induction d with
  | none => cases h
  | file m c rest ih =>
    rw [dir?] at h
    rw [mkdir]
    split at h
    · cases h
    · rename_i hne
      rw [if_neg hne, ih h]
  | dir m below' rest _ ih =>
    rw [dir?] at h
    rw [mkdir]
    split at h
    · rename_i heq
      rw [if_pos heq, h]
    · rename_i hne
      rw [if_neg hne, ih h]

theorem fileAt_setDir_self {d there : Entries N C} {n : N} (h : d.mkdir n = some there) (below : Entries N C) (q : List N) :
    (d.setDir n below).fileAt (n :: q) = below.fileAt q := by
  induction d with
  | none => rw [setDir, fileAt, if_pos rfl]
  | file m c rest ih =>
    rw [mkdir] at h
    split at h
    · cases h
    · rename_i hne
      rw [setDir, if_neg hne, fileAt, if_neg fun heq => hne (List.cons.inj heq).1.symm, ih h]
  | dir m below' rest _ ih =>
    rw [mkdir] at h
    rw [setDir]
    split at h
    · rename_i heq
      rw [if_pos heq, fileAt, if_pos rfl]
    · rename_i hne
      rw [if_neg hne, fileAt, if_neg fun heq => hne heq.symm, ih h]

theorem fileAt_setDir_of_ne {d : Entries N C} {n m : N} (hne : m ≠ n) (below : Entries N C) (q : List N) :
    (d.setDir n below).fileAt (m :: q) = d.fileAt (m :: q) := by
  induction d with
  | none => exact if_neg hne
  | file k c rest ih =>
    rw [setDir]
    split
    · rename_i heq
      rw [fileAt, fileAt, if_neg hne, if_neg fun h => hne ((List.cons.inj h).1.trans heq)]
    · rw [fileAt, fileAt, ih]
  | dir k below' rest _ ih =>
    rw [setDir]
    split
    · rename_i heq
      rw [fileAt, fileAt, if_neg hne, if_neg fun h => hne (h.trans heq)]
    · rw [fileAt, fileAt, ih]

theorem fileAt_copyFile {d out : Entries N C} {n : N} {c : C} (h : d.copyFile n c = some out) (p : List N) :
    out.fileAt p = if p = [n] then some c else d.fileAt p := by
  induction d generalizing out with
  | none =>
    obtain rfl := Option.some.inj h
    rfl
  | file m c' rest ih =>
    rw [copyFile] at h
    split at h
    · rename_i heq
      obtain rfl := Option.some.inj h
      rw [heq, fileAt, fileAt]
      split <;> rfl
    · rename_i hne
      obtain ⟨rest', hrest, rfl⟩ := Option.map_eq_some_iff.mp h
      rw [fileAt, fileAt, ih hrest]
      by_cases hp : p = [n]
      · rw [if_pos hp, if_neg fun heq => hne (List.cons.inj (heq.symm.trans hp)).1, if_pos hp]
      · rw [if_neg hp, if_neg hp]
  | dir m below rest _ ih =>
    rw [copyFile] at h
    split at h
    · cases h
    · rename_i hne
      obtain ⟨rest', hrest, rfl⟩ := Option.map_eq_some_iff.mp h
      cases p with
      | nil => rw [fileAt, if_neg (List.cons_ne_nil _ _).symm, fileAt]
      | cons k q =>
        rw [fileAt, fileAt, ih hrest]
        by_cases hk : k = m
        · rw [if_pos hk, if_pos hk, if_neg fun heq => hne (hk.symm.trans (List.cons.inj heq).1)]
        · rw [if_neg hk, if_neg hk]

/-- After a copy, a file is the source's, else the one that was there. -/
theorem fileAt_copyInto {src dest out : Entries N C} (hsrc : src.Valid) (h : src.copyInto dest = some out) (p : List N) :
    out.fileAt p = (src.fileAt p).or (dest.fileAt p) := by
  induction src generalizing dest out p with
  | none =>
    obtain rfl := Option.some.inj h
    rfl
  | file n c rest ih =>
    obtain ⟨written, hwritten, h⟩ := Option.bind_eq_some_iff.mp h
    rw [ih hsrc.2 h, fileAt_copyFile hwritten, fileAt]
    by_cases hp : p = [n]
    · rw [if_pos hp, if_pos hp, hp, fileAt_of_not_mem hsrc.1]
      rfl
    · rw [if_neg hp, if_neg hp]
  | dir n below rest ihbelow ih =>
    obtain ⟨made, hmade, h⟩ := Option.bind_eq_some_iff.mp h
    obtain ⟨there, hthere, hmade⟩ := Option.bind_eq_some_iff.mp hmade
    obtain ⟨copied, hcopied, rfl⟩ := Option.map_eq_some_iff.mp hmade
    rw [ih hsrc.2.2 h]
    cases p with
    | nil => simp
    | cons m q =>
      rw [fileAt]
      by_cases hm : m = n
      · rw [if_pos hm, hm, fileAt_of_not_mem hsrc.1, fileAt_setDir_self hthere, ihbelow hsrc.2.1 hcopied, fileAt_mkdir hthere]
        rfl
      · rw [if_neg hm, fileAt_setDir_of_ne hm]

theorem fileAt_copyDir {src dest out : Entries N C} {n : N} (hsrc : src.Valid) (h : src.copyDir n dest = some out) (m : N)
    (q : List N) :
    out.fileAt (m :: q) = if m = n then (src.fileAt q).or (dest.fileAt (m :: q)) else dest.fileAt (m :: q) := by
  obtain ⟨there, hthere, h⟩ := Option.bind_eq_some_iff.mp h
  obtain ⟨copied, hcopied, rfl⟩ := Option.map_eq_some_iff.mp h
  by_cases hm : m = n
  · rw [if_pos hm, hm, fileAt_setDir_self hthere, fileAt_copyInto hsrc hcopied, fileAt_mkdir hthere]
  · rw [if_neg hm, fileAt_setDir_of_ne hm]

theorem fileAt_remove {d : Entries N C} (h : d.Valid) (n : N) (q : List N) : (d.remove n).fileAt (n :: q) = .none := by
  induction d with
  | none => rfl
  | file m c rest ih =>
    rw [remove]
    split
    · rename_i heq
      exact fileAt_of_not_mem (heq ▸ h.1) q
    · rename_i hne
      rw [fileAt, if_neg fun heq => hne (List.cons.inj heq).1.symm, ih h.2]
  | dir m below rest _ ih =>
    rw [remove]
    split
    · rename_i heq
      exact fileAt_of_not_mem (heq ▸ h.1) q
    · rename_i hne
      rw [fileAt, if_neg fun heq => hne heq.symm, ih h.2.2]

theorem fileAt_remove_of_ne {n m : N} (hne : m ≠ n) (d : Entries N C) (q : List N) :
    (d.remove n).fileAt (m :: q) = d.fileAt (m :: q) := by
  induction d with
  | none => rfl
  | file k c rest ih =>
    rw [remove]
    split
    · rename_i heq
      rw [fileAt, if_neg fun h => hne ((List.cons.inj h).1.trans heq)]
    · rw [fileAt, fileAt, ih]
  | dir k below rest _ ih =>
    rw [remove]
    split
    · rename_i heq
      rw [fileAt, if_neg fun h => hne (h.trans heq)]
    · rw [fileAt, fileAt, ih]

/-! ## Names stay apart -/

theorem names_setDir {d : Entries N C} {n m : N} {below : Entries N C} (h : m ∈ (d.setDir n below).names) :
    m = n ∨ m ∈ d.names := by
  induction d with
  | none => exact .inl (List.mem_singleton.mp h)
  | file k c rest ih =>
    rw [setDir] at h
    split at h
    · exact (List.mem_cons.mp h).imp_right (List.mem_cons_of_mem _)
    · rcases List.mem_cons.mp h with rfl | h
      · exact .inr (.head _)
      · exact (ih h).imp_right (List.mem_cons_of_mem _)
  | dir k there rest _ ih =>
    rw [setDir] at h
    split at h
    · exact (List.mem_cons.mp h).imp_right (List.mem_cons_of_mem _)
    · rcases List.mem_cons.mp h with rfl | h
      · exact .inr (.head _)
      · exact (ih h).imp_right (List.mem_cons_of_mem _)

theorem valid_setDir {d : Entries N C} (h : d.Valid) (n : N) {below : Entries N C} (hbelow : below.Valid) :
    (d.setDir n below).Valid := by
  induction d with
  | none => exact ⟨List.not_mem_nil, hbelow, trivial⟩
  | file k c rest ih =>
    rw [setDir]
    split
    · rename_i heq
      exact ⟨heq ▸ h.1, hbelow, h.2⟩
    · rename_i hne
      exact ⟨fun hin => (names_setDir hin).elim hne h.1, ih h.2⟩
  | dir k there rest _ ih =>
    rw [setDir]
    split
    · rename_i heq
      exact ⟨heq ▸ h.1, hbelow, h.2.2⟩
    · rename_i hne
      exact ⟨fun hin => (names_setDir hin).elim hne h.1, h.2.1, ih h.2.2⟩

theorem names_copyFile {d out : Entries N C} {n m : N} {c : C} (h : d.copyFile n c = some out) (hm : m ∈ out.names) :
    m = n ∨ m ∈ d.names := by
  induction d generalizing out with
  | none =>
    obtain rfl := Option.some.inj h
    exact .inl (List.mem_singleton.mp hm)
  | file k c' rest ih =>
    rw [copyFile] at h
    split at h
    · obtain rfl := Option.some.inj h
      exact (List.mem_cons.mp hm).imp_right (List.mem_cons_of_mem _)
    · obtain ⟨rest', hrest, rfl⟩ := Option.map_eq_some_iff.mp h
      rcases List.mem_cons.mp hm with rfl | hm
      · exact .inr (.head _)
      · exact (ih hrest hm).imp_right (List.mem_cons_of_mem _)
  | dir k below rest _ ih =>
    rw [copyFile] at h
    split at h
    · cases h
    · obtain ⟨rest', hrest, rfl⟩ := Option.map_eq_some_iff.mp h
      rcases List.mem_cons.mp hm with rfl | hm
      · exact .inr (.head _)
      · exact (ih hrest hm).imp_right (List.mem_cons_of_mem _)

theorem valid_copyFile {d out : Entries N C} (hd : d.Valid) {n : N} {c : C} (h : d.copyFile n c = some out) : out.Valid := by
  induction d generalizing out with
  | none =>
    obtain rfl := Option.some.inj h
    exact ⟨List.not_mem_nil, trivial⟩
  | file k c' rest ih =>
    rw [copyFile] at h
    split at h
    · rename_i heq
      obtain rfl := Option.some.inj h
      exact ⟨heq ▸ hd.1, hd.2⟩
    · rename_i hne
      obtain ⟨rest', hrest, rfl⟩ := Option.map_eq_some_iff.mp h
      exact ⟨fun hin => (names_copyFile hrest hin).elim hne hd.1, ih hd.2 hrest⟩
  | dir k below rest _ ih =>
    rw [copyFile] at h
    split at h
    · cases h
    · rename_i hne
      obtain ⟨rest', hrest, rfl⟩ := Option.map_eq_some_iff.mp h
      exact ⟨fun hin => (names_copyFile hrest hin).elim hne hd.1, hd.2.1, ih hd.2.2 hrest⟩

theorem valid_mkdir {d there : Entries N C} (hd : d.Valid) {n : N} (h : d.mkdir n = some there) : there.Valid := by
  induction d with
  | none =>
    obtain rfl := Option.some.inj h
    trivial
  | file k c rest ih =>
    rw [mkdir] at h
    split at h
    · cases h
    · exact ih hd.2 h
  | dir k below rest _ ih =>
    rw [mkdir] at h
    split at h
    · obtain rfl := Option.some.inj h
      exact hd.2.1
    · exact ih hd.2.2 h

theorem valid_copyInto {src dest out : Entries N C} (hdest : dest.Valid) (h : src.copyInto dest = some out) : out.Valid := by
  induction src generalizing dest out with
  | none =>
    obtain rfl := Option.some.inj h
    exact hdest
  | file n c rest ih =>
    obtain ⟨written, hwritten, h⟩ := Option.bind_eq_some_iff.mp h
    exact ih (valid_copyFile hdest hwritten) h
  | dir n below rest ihbelow ih =>
    obtain ⟨made, hmade, h⟩ := Option.bind_eq_some_iff.mp h
    obtain ⟨there, hthere, hmade⟩ := Option.bind_eq_some_iff.mp hmade
    obtain ⟨copied, hcopied, rfl⟩ := Option.map_eq_some_iff.mp hmade
    exact ih (valid_setDir hdest n (ihbelow (valid_mkdir hdest hthere) hcopied)) h

theorem valid_copyDir {src dest out : Entries N C} {n : N} (hdest : dest.Valid) (h : src.copyDir n dest = some out) :
    out.Valid := by
  obtain ⟨there, hthere, h⟩ := Option.bind_eq_some_iff.mp h
  obtain ⟨copied, hcopied, rfl⟩ := Option.map_eq_some_iff.mp h
  exact valid_setDir hdest n (valid_copyInto (valid_mkdir hdest hthere) hcopied)

theorem names_remove {d : Entries N C} {n m : N} (h : m ∈ (d.remove n).names) : m ∈ d.names := by
  induction d with
  | none => exact h
  | file k c rest ih =>
    rw [remove] at h
    split at h
    · exact List.mem_cons_of_mem _ h
    · exact List.mem_cons.mpr ((List.mem_cons.mp h).imp_right ih)
  | dir k below rest _ ih =>
    rw [remove] at h
    split at h
    · exact List.mem_cons_of_mem _ h
    · exact List.mem_cons.mpr ((List.mem_cons.mp h).imp_right ih)

theorem valid_remove {d : Entries N C} (h : d.Valid) (n : N) : (d.remove n).Valid := by
  induction d with
  | none => trivial
  | file k c rest ih =>
    rw [remove]
    split
    · exact h.2
    · exact ⟨fun hin => h.1 (names_remove hin), ih h.2⟩
  | dir k below rest _ ih =>
    rw [remove]
    split
    · exact h.2.2
    · exact ⟨fun hin => h.1 (names_remove hin), h.2.1, ih h.2.2⟩

theorem valid_dir? {d below : Entries N C} (hd : d.Valid) {n : N} (h : d.dir? n = some below) : below.Valid :=
  valid_mkdir hd (mkdir_eq_dir? h)

end Entries

end FileTree
