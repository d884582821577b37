/-
  FlowHelm.Identity.KeyValuePairs — channel-commands.ts: the pairs of a `/identity set` or
  `/personality set` command (`tokenize`, `parseKeyValuePairs`).

  A value ends where a comma, a word and an equals sign follow, or the text does; so a value that
  has none of these in it is read as it was written. A record is the list of its keys in the order
  they were first assigned.

  - `nextPair_iff`: what a comma before another pair is.
  - `pairPattern_match`: one match takes a key and the whole value.
  - `pairs_text`: the matches of a text of pairs.
  - `parseKeyValuePairs_text`: the record that comes of its tokens.
-/
import FlowHelm.Lib.JsCase
import FlowHelm.Lib.JsWords
import FlowHelm.Lib.Regex

namespace FlowHelm.Identity

open Js Regex Url

/-! ## The patterns -/

/-- `\w`. -/
def isWord (u : UInt16) : Bool :=
  (0x30 ≤ u && u ≤ 0x39) || (0x41 ≤ u && u ≤ 0x5A) || u == 0x5F || (0x61 ≤ u && u ≤ 0x7A)

def comma : UInt16 := 0x2C

def equals : UInt16 := 0x3D

/-- `\w+`. -/
def word : Pattern UInt16 := .seq (.one isWord) (.many true isWord)

/-- `,\s*\w+=`. -/
def nextPair : Pattern UInt16 := .seq (.one (· == comma)) (.seq (.many true isWhiteUnit) (.seq word (.one (· == equals))))

/-- `(\w+)=([\s\S]*?)(?=,\s*\w+=|$)`. -/
def pairPattern : Pattern UInt16 :=
  .seq (.group 1 word) (.seq (.one (· == equals)) (.seq (.group 2 (.many false fun _ => true)) (.ahead (.alt nextPair .ending))))

/-- `,\s*$`. -/
def trailingComma : Pattern UInt16 := .seq (.one (· == comma)) (.seq (.many true isWhiteUnit) .ending)

theorem word_iff {s t : JsString} : Matches word s t ↔ ∃ ws, s = ws ++ t ∧ ws ≠ [] ∧ ∀ u ∈ ws, isWord u = true := by
  constructor
  · intro h
    cases h with
    | seq hone hmany => cases hone with
      | @one _ u _ hu => cases hmany with
        | @many _ _ us _ hus => exact ⟨u :: us, rfl, List.cons_ne_nil u us, List.forall_mem_cons.mpr ⟨hu, hus⟩⟩
  · rintro ⟨ws, rfl, hne, hws⟩
    obtain ⟨u, us, rfl⟩ := List.exists_cons_of_ne_nil hne
    obtain ⟨hu, hus⟩ := List.forall_mem_cons.mp hws
    exact .seq (.one hu) (.many hus)

/-- A comma, white units, a word and an equals sign. -/
theorem nextPair_iff {s t : JsString} : Matches nextPair s t ↔
    ∃ sp ws, s = comma :: (sp ++ ws ++ equals :: t) ∧ (∀ u ∈ sp, isWhiteUnit u = true) ∧ ws ≠ [] ∧ ∀ u ∈ ws, isWord u = true := by
  constructor
  · intro h
    cases h with
    | seq hone hmore => cases hone with
      | @one _ u _ hu => cases hmore with
        | seq hmany hmore => cases hmany with
          | @many _ _ sp _ hsp => cases hmore with
            | seq hword hone => cases hone with
              | @one _ v _ hv =>
                obtain ⟨ws, rfl, hne, hws⟩ := word_iff.mp hword
                obtain rfl := beq_iff_eq.mp hu
                obtain rfl := beq_iff_eq.mp hv
                exact ⟨sp, ws, by rw [List.append_assoc], hsp, hne, hws⟩
  · rintro ⟨sp, ws, rfl, hsp, hne, hws⟩
    rw [List.append_assoc]
    exact .seq (.one (beq_self_eq_true _)) (.seq (.many hsp)
      (.seq (word_iff.mpr ⟨ws, rfl, hne, hws⟩) (.one (beq_self_eq_true _))))

/-- A pair starts with a word, and takes at least that. -/
theorem pairPattern_word {s t : JsString} (h : Matches pairPattern s t) :
    (∃ u ∈ s.head?, isWord u = true) ∧ t.length < s.length := by
  cases h with
  | seq hgroup hmore => cases hgroup with
    | group hword =>
      obtain ⟨ws, rfl, hne, hws⟩ := word_iff.mp hword
      obtain ⟨u, us, rfl⟩ := List.exists_cons_of_ne_nil hne
      have hlength := hmore.suffix.length_le
      refine ⟨⟨u, rfl, hws u (List.mem_cons_self ..)⟩, ?_⟩
      simp only [List.length_append, List.length_cons]
      omega

/-! ## The loop -/

/-- `while ((match = pairPattern.exec(joined)) !== null)`: the two captures of each match. -/
def pairs (s : JsString) : List (JsString × JsString) :=
  match _h : search pairPattern s with
  | none => []
  | some m => ((m.captures 1).getD [], (m.captures 2).getD []) :: pairs m.after
termination_by s.length
decreasing_by
  obtain ⟨w, rfl, hm⟩ := search_sound _h
  have hless := (pairPattern_word hm).2
  rw [List.length_append]
  omega

theorem pairs_none {s : JsString} (h : search pairPattern s = none) : pairs s = [] := by
  rw [pairs]
  split
  · rfl
  · rename_i hm
    simp [h] at hm

theorem pairs_some {s : JsString} {m : Found UInt16} (h : search pairPattern s = some m) :
    pairs s = ((m.captures 1).getD [], (m.captures 2).getD []) :: pairs m.after := by
  rw [pairs]
  split
  · rename_i hnone
    simp [h] at hnone
  · rename_i n hn
    rw [h] at hn
    rw [Option.some.inj hn]

/-- `value.replace(/,\s*$/, '')`. -/
def withoutTrailingComma (value : JsString) : JsString := match search trailingComma value with
  | some m => m.before ++ m.after
  | none => value

abbrev Fields := List (JsString × JsString)

/-- `result[key] = value`; the setter of `__proto__` takes no string. -/
def assign (result : Fields) (key value : JsString) : Fields :=
  if key = ofString "__proto__" then result
  else if result.any (·.1 == key) then result.map fun f => if f.1 = key then (key, value) else f
  else result ++ [(key, value)]

def addPair (m : CaseMapping) (result : Fields) (pair : JsString × JsString) : Fields :=
  let key := m.toLowerCase pair.1
  let value := trimEnds pair.2
  if value = [] then result else assign result key (withoutTrailingComma value)

def parseKeyValuePairs (m : CaseMapping) (args : List JsString) : Fields :=
  let joined := trimEnds (join [gap] args)
  if joined = [] then [] else (pairs joined).foldl (addPair m) []

/-! ## Texts of pairs -/

def isLowerWord (u : UInt16) : Bool := isWord u && !(0x41 ≤ u && u ≤ 0x5A)

/-- A pair as it can be written: the value has single blanks alone, no comma behind it, and none
    that would start another pair. -/
structure Pair where
  key : JsString
  value : JsString
  key_ne : key ≠ []
  key_word : ∀ u ∈ key, isLowerWord u = true
  key_proto : key ≠ ofString "__proto__"
  value_ne : value ≠ []
  value_tidy : Tidy value
  value_comma : value.getLast? ≠ some comma
  value_whole : ∀ v s t, value = v ++ s → ¬Matches nextPair s t

def Pair.text (p : Pair) : JsString := p.key ++ equals :: p.value

/-- `k1=v1, k2=v2, …`. -/
def text (ps : List Pair) : JsString := join [comma, gap] (ps.map Pair.text)

/-- What is written behind a pair. -/
def tailOf (ps : List Pair) : JsString := if ps = [] then [] else comma :: gap :: text ps

theorem text_cons (p : Pair) (ps : List Pair) : text (p :: ps) = p.key ++ equals :: (p.value ++ tailOf ps) := by
  cases ps with
  | nil => simp [text, join, Pair.text, tailOf]
  | cons q ps => simp [text, join, Pair.text, tailOf]

theorem isWord_of_lower {u : UInt16} (h : isLowerWord u = true) : isWord u = true := (Bool.and_eq_true_iff.mp h).1

theorem Pair.key_words (p : Pair) : ∀ u ∈ p.key, isWord u = true := fun u hu => isWord_of_lower (p.key_word u hu)

/-! ## One match -/

theorem tailOf_cases (ps : List Pair) : tailOf ps = [] ∨ ∃ t, tailOf ps = comma :: t := by
  unfold tailOf
  split
  · exact .inl rfl
  · exact .inr ⟨_, rfl⟩

/-- A value ends where another pair begins, or the text does. -/
theorem tailOf_matches (ps : List Pair) : ∃ t, Matches (.alt nextPair .ending) (tailOf ps) t := by
  cases ps with
  | nil => exact ⟨[], .right .ending⟩
  | cons p ps =>
    refine ⟨p.value ++ tailOf ps, .left (nextPair_iff.mpr ⟨[gap], p.key, ?_, ?_, p.key_ne, p.key_words⟩)⟩
    · simp [tailOf, text_cons]
    · simp [isWhiteUnit_gap]

theorem isWord_comma : isWord comma = false := by decide

theorem isWhiteUnit_comma : isWhiteUnit comma = false := by decide

/-- Nowhere before. -/
theorem value_goes_on (p : Pair) (ps : List Pair) {v w : JsString} (hvw : p.value = v ++ w) (hne : w ≠ []) (t : JsString) :
    ¬Matches (.alt nextPair .ending) (w ++ tailOf ps) t := by
  intro h
  cases h with
  | right h =>
    generalize hw : w ++ tailOf ps = s at h
    cases h
    exact hne (List.append_eq_nil_iff.mp hw).1
  | left h =>
    obtain ⟨sp, ws, heq, hsp, hwsne, hws⟩ := nextPair_iff.mp h
    obtain ⟨u, w, rfl⟩ := List.exists_cons_of_ne_nil hne
    rw [List.cons_append, List.cons.injEq] at heq
    obtain ⟨rfl, heq⟩ := heq
    rcases List.append_eq_append_iff.mp heq with ⟨more, hmore, htail⟩ | ⟨more, hmore, htail⟩
    · -- the comma behind the value is neither white nor part of a word
      cases more with
      | nil => rcases tailOf_cases ps with hnil | ⟨t, ht⟩ <;> simp_all [comma, equals]
      | cons x more =>
        have hx : x = comma := by
          rcases tailOf_cases ps with hnil | ⟨t, ht⟩
          · rw [hnil] at htail
            cases htail
          · rw [ht] at htail
            exact (List.cons.inj htail).1.symm
        have hmem : comma ∈ sp ++ ws := by
          rw [hmore, hx]
          simp
        rcases List.mem_append.mp hmem with hmem | hmem
        · exact absurd (hsp comma hmem) (by simp [isWhiteUnit_comma])
        · exact absurd (hws comma hmem) (by simp [isWord_comma])
    · cases more with
      | nil => rcases tailOf_cases ps with hnil | ⟨t, ht⟩ <;> simp_all [comma, equals]
      | cons x more =>
        obtain ⟨rfl, -⟩ := List.cons.inj htail
        refine p.value_whole v (comma :: w) more hvw (nextPair_iff.mpr ⟨sp, ws, ?_, hsp, hwsne, hws⟩)
        rw [hmore]

theorem isWord_equals : isWord equals = false := by decide

/-- Behind the equals sign. -/
def valuePattern : Pattern UInt16 := .seq (.group 2 (.many false fun _ => true)) (.ahead (.alt nextPair .ending))

theorem valuePattern_run (p : Pair) (ps : List Pair) (c : Captures UInt16) (k : Captures UInt16 → JsString → Result UInt16)
    {x : Captures UInt16 × JsString} (hk : k (c.set 2 p.value) (tailOf ps) = some x) :
    run valuePattern c (p.value ++ tailOf ps) k = some x := by
  obtain ⟨t, htail⟩ := tailOf_matches ps
  refine run_lazy (k := fun d v => run (.ahead (.alt nextPair .ending))
    (d.set 2 ((p.value ++ tailOf ps).take ((p.value ++ tailOf ps).length - v.length))) v k) (fun _ _ => rfl) ?_ ?_
  · intro v w hvw hne
    exact run_ahead_none (value_goes_on p ps hvw hne) _ _
  · rw [run_ahead htail (by decide)]
    simpa using hk

/-- One match takes the key and the whole value. -/
theorem pairPattern_match (p : Pair) (ps : List Pair) : ∃ c, matchHere pairPattern (text (p :: ps)) = some (c, tailOf ps) ∧
    c 1 = some p.key ∧ c 2 = some p.value := by
  obtain ⟨u, us, hkey⟩ := List.exists_cons_of_ne_nil p.key_ne
  obtain ⟨hu, hus⟩ := List.forall_mem_cons.mp (hkey ▸ p.key_words)
  let c : Captures UInt16 := Captures.set (Captures.set (fun _ => none) 1 p.key) 2 p.value
  refine ⟨c, ?_, rfl, rfl⟩
  have hgreedy := run_greedy (c := fun _ => none) (t := equals :: (p.value ++ tailOf ps)) (x := (c, tailOf ps))
    (k := fun d v => run (.seq (.one (· == equals)) valuePattern)
      (d.set 1 ((text (p :: ps)).take ((text (p :: ps)).length - v.length))) v fun c t => some (c, t))
    hus (fun v hv => by cases hv; exact isWord_equals) ?_
  · rw [text_cons, hkey] at hgreedy ⊢
    show (if isWord u = true then _ else none) = _
    rw [if_pos hu]
    exact hgreedy
  · show (if (equals == equals) = true then _ else none) = _
    rw [if_pos (beq_self_eq_true equals)]
    refine valuePattern_run p ps _ _ ?_
    simp [text_cons, c]

/-! ## All matches -/

theorem search_at_break {u : UInt16} {s : JsString} (h : isWord u = false) :
    search pairPattern (u :: s) = (search pairPattern s).map fun m => { m with before := u :: m.before } := by
  refine search_cons (matchHere_none fun t hm => ?_)
  obtain ⟨v, hv, hword⟩ := (pairPattern_word hm).1
  cases hv
  simp [h] at hword

theorem pairs_tail (ps : List Pair) : pairs (tailOf ps) = ps.map fun p => (p.key, p.value) := by
  induction ps with
  | nil =>
    refine pairs_none (search_eq_none fun v w t hvw hm => ?_)
    obtain ⟨u, hu, -⟩ := (pairPattern_word hm).1
    rw [tailOf, if_pos rfl] at hvw
    rw [(List.append_eq_nil_iff.mp hvw.symm).2] at hu
    cases hu
  | cons p ps ih =>
    obtain ⟨c, hmatch, hkey, hvalue⟩ := pairPattern_match p ps
    have hsearch : search pairPattern (tailOf (p :: ps)) = some ⟨[comma, gap], c, tailOf ps⟩ := by
      rw [tailOf, if_neg (List.cons_ne_nil p ps), search_at_break isWord_comma, search_at_break (by decide),
        search_of_match hmatch]
      rfl
    rw [pairs_some hsearch, ih]
    simp [hkey, hvalue]

theorem pairs_text (ps : List Pair) : pairs (text ps) = ps.map fun p => (p.key, p.value) := by
  cases ps with
  | nil => exact pairs_tail []
  | cons p ps =>
    obtain ⟨c, hmatch, hkey, hvalue⟩ := pairPattern_match p ps
    rw [pairs_some (search_of_match hmatch), pairs_tail ps]
    simp [hkey, hvalue]

/-! ## The record -/

theorem isWhiteUnit_word {u : UInt16} (h : isWord u = true) : isWhiteUnit u = false := by
  have hall : ∀ n : Fin 128, isWord (UInt16.ofNat n) = true → isWhiteUnit (UInt16.ofNat n) = false := by decide
  have hlt : u.toNat < 128 := by
    simp only [isWord, Bool.or_eq_true, Bool.and_eq_true, decide_eq_true_eq, beq_iff_eq, UInt16.le_iff_toNat_le,
      ← UInt16.toNat_inj, UInt16.reduceToNat] at h
    omega
  have hsmall := hall ⟨u.toNat, hlt⟩
  simp only [UInt16.ofNat_toNat] at hsmall
  exact hsmall h

theorem lowerUnit_lowerWord {u : UInt16} (h : isLowerWord u = true) : lowerUnit u = u := by
  refine if_neg fun hupper => ?_
  have hnot := (Bool.and_eq_true_iff.mp h).2
  simp [hupper.1, hupper.2] at hnot

theorem Pair.toLowerCase_key (m : CaseMapping) (p : Pair) : m.toLowerCase p.key = p.key := by
  have hascii : ∀ u ∈ p.key, u < 0x80 := by
    intro u hu
    have hword := p.key_words u hu
    simp only [isWord, Bool.or_eq_true, Bool.and_eq_true, decide_eq_true_eq, beq_iff_eq, UInt16.le_iff_toNat_le,
      UInt16.lt_iff_toNat_lt, ← UInt16.toNat_inj, UInt16.reduceToNat] at hword ⊢
    omega
  rw [m.ascii p.key hascii, asciiLower_eq]
  exact (List.map_congr_left fun u hu => lowerUnit_lowerWord (p.key_word u hu)).trans (List.map_id _)

theorem withoutTrailingComma_value (p : Pair) : withoutTrailingComma p.value = p.value := by
  have hnone : search trailingComma p.value = none := by
    refine search_eq_none fun v w t hvw hm => ?_
    cases hm with
    | seq hone hmore => cases hone with
      | @one _ u s hu => cases hmore with
        | seq hmany hending => cases hmany with
          | @many _ _ sp _ hsp =>
            cases hending
            obtain rfl := beq_iff_eq.mp hu
            rw [List.append_nil] at hvw
            cases hlast : sp.getLast? with
            | none =>
              rw [List.getLast?_eq_none_iff.mp hlast] at hvw
              exact p.value_comma (by rw [hvw, List.getLast?_concat])
            | some x =>
              have hx : p.value.getLast? = some x := by
                rw [hvw, List.getLast?_append, List.getLast?_cons, hlast]
                rfl
              have hwhite := hsp x (List.mem_of_getLast? hlast)
              simp [p.value_tidy.last x hx] at hwhite
  rw [withoutTrailingComma, hnone]

/-- A pair whose key is new is added as it was written. -/
theorem addPair_new (m : CaseMapping) {result : Fields} (p : Pair) (hnew : p.key ∉ result.map (·.1)) :
    addPair m result (p.key, p.value) = result ++ [(p.key, p.value)] := by
  have hany : (result.any fun f => f.1 == p.key) = false := by
    refine List.any_eq_false.mpr fun f hf hkey => hnew ?_
    exact List.mem_map.mpr ⟨f, hf, beq_iff_eq.mp hkey⟩
  simp only [addPair, p.toLowerCase_key m, trimEnds_tidy p.value_tidy, if_neg p.value_ne, withoutTrailingComma_value, assign,
    if_neg p.key_proto, hany, Bool.false_eq_true, if_false]

theorem foldl_addPair (m : CaseMapping) (ps : List Pair) (result : Fields)
    (hdistinct : (result.map (·.1) ++ ps.map Pair.key).Nodup) :
    (ps.map fun p => (p.key, p.value)).foldl (addPair m) result = result ++ ps.map fun p => (p.key, p.value) := by
  induction ps generalizing result with
  | nil => simp
  | cons p ps ih =>
    have hnew : p.key ∉ result.map (·.1) := by
      intro hmem
      exact (List.nodup_append.mp hdistinct).2.2 p.key hmem p.key (List.mem_cons_self ..) rfl
    rw [List.map_cons, List.foldl_cons, addPair_new m p hnew, ih, List.append_assoc]
    · rfl
    · simpa [List.append_assoc] using hdistinct

/-! ## The command -/

theorem Pair.text_tidy (p : Pair) : Tidy p.text := by
  have hkey : Tidy (p.key ++ [equals]) := by
    refine Tidy.plain fun u hu => ?_
    rcases List.mem_append.mp hu with hu | hu
    · exact isWhiteUnit_word (p.key_words u hu)
    · rw [List.mem_singleton.mp hu]
      decide
  have hall := hkey.append p.value_tidy
  rwa [List.append_assoc] at hall

theorem text_tidy (ps : List Pair) : Tidy (text ps) := by
  induction ps with
  | nil => exact Tidy.plain (List.forall_mem_nil _)
  | cons p ps ih => cases ps with
    | nil => exact p.text_tidy
    | cons q ps =>
      have hcomma : Tidy (p.text ++ [comma]) := p.text_tidy.append (Tidy.plain (by decide))
      have hne : text (q :: ps) ≠ [] := by
        rw [text_cons]
        simp
      have hall := hcomma.spaced ih (by simp) hne
      rw [List.append_assoc] at hall
      show Tidy (p.text ++ [comma, gap] ++ text (q :: ps))
      rw [List.append_assoc]
      exact hall

/-- The tokens of a text of pairs make a record of just these pairs. -/
theorem parseKeyValuePairs_text (m : CaseMapping) (ps : List Pair) (hdistinct : (ps.map Pair.key).Nodup) :
    parseKeyValuePairs m (tokenize (text ps)) = ps.map fun p => (p.key, p.value) := by
  have hjoined : trimEnds (join [gap] (tokenize (text ps))) = text ps := by
    rw [join_tokenize (text_tidy ps), trimEnds_tidy (text_tidy ps)]
  have hfold := foldl_addPair m ps [] hdistinct
  simp only [parseKeyValuePairs, hjoined, pairs_text, hfold, List.nil_append]
  split
  · rename_i hempty
    cases ps with
    | nil => rfl
    | cons p ps =>
      rw [text_cons] at hempty
      simp at hempty
  · rfl

theorem whole_of_search {value : JsString} (h : (search nextPair value).isNone = true) (v s t : JsString) (hvs : value = v ++ s) :
    ¬Matches nextPair s t := by
  intro hm
  have hsome := search_complete (v := v) hm
  rw [← hvs] at hsome
  simp [Option.isNone_iff_eq_none.mp h] at hsome

def rolePair : Pair where
  key := ofString "role"
  value := ofString "CEO, CTO (a=b)"
  key_ne := by decide
  key_word := by decide
  key_proto := by decide
  value_ne := by decide
  value_tidy := ⟨by decide, by decide, plain_end (by decide), plain_end (by decide)⟩
  value_comma := by decide
  value_whole := whole_of_search (by decide)

def tonePair : Pair where
  key := ofString "tone"
  value := ofString "dry, x y=z"
  key_ne := by decide
  key_word := by decide
  key_proto := by decide
  value_ne := by decide
  value_tidy := ⟨by decide, by decide, plain_end (by decide), plain_end (by decide)⟩
  value_comma := by decide
  value_whole := whole_of_search (by decide)

/-- Values with commas, words and equals signs of their own. -/
theorem a_role_and_a_tone : text [rolePair, tonePair] = ofString "role=CEO, CTO (a=b), tone=dry, x y=z" ∧
    parseKeyValuePairs .asciiOnly (tokenize (text [rolePair, tonePair])) =
      [(ofString "role", ofString "CEO, CTO (a=b)"), (ofString "tone", ofString "dry, x y=z")] :=
  ⟨by decide, parseKeyValuePairs_text .asciiOnly [rolePair, tonePair] (by decide)⟩

end FlowHelm.Identity
