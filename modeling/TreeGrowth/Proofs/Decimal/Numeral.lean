import TreeGrowth.Decimal.Reader
import TreeGrowth.Proofs.Text.Padding

/-!
# The text of a number

What is accepted as a number holds letters, digits, signs, points and
underscores only, apart from the padding around it.  So no mark of a rule text
can hide in a number, and padding that is stripped before reading makes no
difference to a text that is accepted with it.
-/

namespace TreeGrowth.Decimal

open Text

/-- The characters that a number may be written with. -/
def isNumeral (c : Char) : Bool :=
  c.isAlphanum || c == '_' || c == '+' || c == '-' || c == '.'

theorem isNumeral_of_isDigit {c : Char} (hc : c.isDigit = true) :
    isNumeral c = true := by
  simp [isNumeral, Char.isAlphanum, hc]

theorem isNumeral_of_isAlpha {c : Char} (hc : c.isAlpha = true) :
    isNumeral c = true := by
  simp [isNumeral, Char.isAlphanum, hc]

theorem isBlank_eq_false_of_isNumeral {c : Char} (hc : isNumeral c = true) :
    isBlank c = false := by
  have hcode : 43 ≤ c.toNat ∧ c.toNat ≤ 122 := by
    simp only [isNumeral, Char.isAlphanum, Char.isAlpha, Char.isUpper,
      Char.isLower, Char.isDigit, ge_iff_le, UInt32.le_iff_toNat_le,
      Bool.or_eq_true, Bool.and_eq_true, decide_eq_true_eq, beq_iff_eq] at hc
    rcases hc with (((hc | rfl) | rfl) | rfl) | rfl
    · rw [Char.toNat]
      rcases hc with (hc | hc) | hc <;>
        exact ⟨le_trans (by decide) hc.1, le_trans hc.2 (by decide)⟩
    all_goals decide
  simp only [isBlank, Bool.or_eq_false_iff, Bool.and_eq_false_iff,
    decide_eq_false_iff_not, beq_eq_false_iff_ne]
  omega

theorem isAlpha_of_isAlpha_toLower {c : Char}
    (hc : c.toLower.isAlpha = true) : c.isAlpha = true := by
  unfold Char.toLower at hc
  split at hc
  next hupper =>
    have hletter : c.isUpper = true := decide_eq_true hupper
    simp [Char.isAlpha, hletter]
  next => exact hc

/-! ## The parts of a number -/

theorem mem_of_joinGroups? {text body : List Char}
    (hjoin : joinGroups? text = some body) {c : Char} (hc : c ∈ text) :
    c = '_' ∨ c ∈ body := by
  fun_induction joinGroups? text generalizing body with
  | case1 => simp at hc
  | case2 => simp at hjoin
  | case3 d => exact .inr (by simpa [← Option.some.inj hjoin] using hc)
  | case4 d e rest hdigits ih =>
      obtain ⟨tail, htail, rfl⟩ := Option.map_eq_some_iff.mp hjoin
      have htails := ih htail
      simp only [List.mem_cons] at hc htails ⊢
      tauto
  | case5 => simp at hjoin
  | case6 => simp at hjoin
  | case7 d e rest hpattern hunderscore ih =>
      obtain ⟨tail, htail, rfl⟩ := Option.map_eq_some_iff.mp hjoin
      have htails := ih htail
      simp only [List.mem_cons] at hc htails ⊢
      tauto

theorem mem_splitSign {text : List Char} {c : Char} (hc : c ∈ text) :
    c = '-' ∨ c = '+' ∨ c ∈ (splitSign text).2 := by
  unfold splitSign
  split
  next rest => exact (List.mem_cons.mp hc).imp_right .inr
  next rest => exact .inr (List.mem_cons.mp hc)
  next => exact .inr (.inr hc)

theorem isNumeral_of_splitSign {text : List Char} {c : Char} (hc : c ∈ text)
    (hbody : ∀ d ∈ (splitSign text).2, isNumeral d = true) :
    isNumeral c = true := by
  rcases mem_splitSign hc with rfl | rfl | hmem
  · decide
  · decide
  · exact hbody c hmem

theorem isNumeral_of_readPower? {text : List Char} {power : Int}
    (hread : readPower? text = some power) :
    ∀ c ∈ text, isNumeral c = true := by
  cases text with
  | nil => simp
  | cons letter rest =>
      rw [readPower?] at hread
      split at hread
      next hletter =>
        have hdigits : ∀ d ∈ (splitSign rest).2, d.isDigit = true := by
          by_contra hother
          simp only at hread
          rw [if_pos] at hread
          · simp at hread
          · simp only [not_forall] at hother
            obtain ⟨d, hd, hnone⟩ := hother
            simp only [Bool.or_eq_true, Bool.not_eq_true', List.all_eq_false]
            exact .inr ⟨d, hd, hnone⟩
        intro c hc
        rcases List.mem_cons.mp hc with rfl | hrest
        · rcases hletter with rfl | rfl <;> decide
        · exact isNumeral_of_splitSign hrest
            fun d hd => isNumeral_of_isDigit (hdigits d hd)
      next => simp at hread

theorem isNumeral_of_mem_takeWhile_isDigit {text : List Char} {c : Char}
    (hc : c ∈ text.takeWhile Char.isDigit) : isNumeral c = true :=
  isNumeral_of_isDigit (List.mem_takeWhile_imp hc)

theorem isNumeral_of_readWritten? {text : List Char} {w : Written}
    (hread : readWritten? text = some w) :
    ∀ c ∈ text, isNumeral c = true := by
  intro c hc
  rw [← List.takeWhile_append_dropWhile (p := Char.isDigit) (l := text),
    List.mem_append] at hc
  rcases hc with hwhole | hrest
  · exact isNumeral_of_mem_takeWhile_isDigit hwhole
  unfold readWritten? at hread
  simp only at hread
  split at hread
  next more hmore =>
    split at hread
    next => simp at hread
    next =>
      obtain ⟨power, hpower, _⟩ := Option.map_eq_some_iff.mp hread
      rw [hmore] at hrest
      rcases List.mem_cons.mp hrest with rfl | hfraction
      · decide
      rw [← List.takeWhile_append_dropWhile (p := Char.isDigit) (l := more),
        List.mem_append] at hfraction
      exact hfraction.elim isNumeral_of_mem_takeWhile_isDigit
        (isNumeral_of_readPower? hpower c)
  next =>
    split at hread
    next => simp at hread
    next =>
      obtain ⟨power, hpower, _⟩ := Option.map_eq_some_iff.mp hread
      exact isNumeral_of_readPower? hpower c hrest

theorem isNumeral_of_readWord? {text : List Char} {x : Float}
    (hread : readWord? text = some x) : ∀ c ∈ text, isNumeral c = true := by
  have hletters : ∀ word : List Char, (∀ d ∈ word, d.isAlpha = true) →
      text.map Char.toLower = word → ∀ c ∈ text, isNumeral c = true := by
    rintro word hword rfl c hc
    exact isNumeral_of_isAlpha (isAlpha_of_isAlpha_toLower
      (hword _ (List.mem_map_of_mem hc)))
  unfold readWord? at hread
  simp only at hread
  split at hread
  next hinfinity =>
    exact hinfinity.elim (hletters _ (by simp)) (hletters _ (by simp))
  next =>
    split at hread
    next hnan => exact hletters _ (by simp) hnan
    next => simp at hread

/-! ## The text before its parts are read -/

/-- What a character becomes in a text that is not within the smallest
character set. -/
def plainChar (c : Char) : Char :=
  if c.toNat < 127 then c
  else if isBlank c then ' '
  else match digitValue? c with
    | some d => Nat.digitChar d
    | none => '?'

theorem plainForm_eq (text : List Char) :
    plainForm text =
      if text.all fun c => c.toNat < 128 then text
      else text.map plainChar :=
  rfl

theorem plainChar_of_lt {c : Char} (hc : c.toNat < 127) :
    plainChar c = c :=
  if_pos hc

variable {text : List Char} {x : Float}

theorem isNumeral_of_mem_unpadded (hread : readDecimal? text = some x)
    {c : Char} (hc : c ∈ unpadded (plainForm text)) : isNumeral c = true := by
  obtain ⟨body, hjoin, hvalue⟩ := Option.bind_eq_some_iff.mp hread
  have hbody : ∀ d ∈ (splitSign body).2, isNumeral d = true := by
    simp only at hvalue
    obtain ⟨y, hy, _⟩ := Option.map_eq_some_iff.mp hvalue
    cases hword : readWord? (splitSign body).2 with
    | some z => exact isNumeral_of_readWord? hword
    | none =>
        rw [hword] at hy
        obtain ⟨w, hw, _⟩ := Option.map_eq_some_iff.mp hy
        exact isNumeral_of_readWritten? hw
  rcases mem_of_joinGroups? hjoin hc with rfl | hmem
  · decide
  · exact isNumeral_of_splitSign hmem hbody

theorem isNumeral_of_mem_plainForm (hread : readDecimal? text = some x)
    {c : Char} (hc : c ∈ plainForm text) (hblank : isPlainBlank c = false) :
    isNumeral c = true := by
  obtain ⟨before, after, hbefore, hafter, htext⟩ :=
    exists_strip isPlainBlank (plainForm text)
  apply isNumeral_of_mem_unpadded hread
  rw [htext, List.append_assoc, List.mem_append, List.mem_append] at hc
  rcases hc with hmem | hmem | hmem
  · simp [hbefore c hmem] at hblank
  · exact hmem
  · simp [hafter c hmem] at hblank

/-- A character of the smallest set in an accepted text belongs to the number
or to its padding. -/
theorem isNumeral_of_mem (hread : readDecimal? text = some x)
    {c : Char} (hc : c ∈ text) (hlow : c.toNat < 127)
    (hblank : isPlainBlank c = false) : isNumeral c = true := by
  apply isNumeral_of_mem_plainForm hread _ hblank
  rw [plainForm_eq]
  split
  next => exact hc
  next =>
    rw [← plainChar_of_lt hlow]
    exact List.mem_map_of_mem hc

theorem toNat_ne_of_mem (hread : readDecimal? text = some x) {c : Char}
    (hc : c ∈ text) : c.toNat ≠ 127 := by
  intro hdelete
  have heq : c = '\x7f' := Char.toNat_inj.mp hdelete
  subst heq
  rcases Bool.eq_false_or_eq_true (text.all fun c => c.toNat < 128) with
    hall | hother
  · have hmem : '\x7f' ∈ plainForm text := by
      rw [plainForm_eq, if_pos hall]
      exact hc
    have hnumeral := isNumeral_of_mem_plainForm hread hmem (by decide)
    exact absurd hnumeral (by decide)
  · have hmem : '?' ∈ plainForm text := by
      rw [plainForm_eq, hother, if_neg Bool.false_ne_true]
      exact List.mem_map.mpr ⟨'\x7f', hc, by decide +kernel⟩
    have hnumeral := isNumeral_of_mem_plainForm hread hmem (by decide)
    exact absurd hnumeral (by decide)

theorem plainForm_eq_map (htext : ∀ c ∈ text, c.toNat ≠ 127) :
    plainForm text = text.map plainChar := by
  rw [plainForm_eq]
  split
  next hall =>
    have hsame : ∀ c ∈ text, plainChar c = c := by
      intro c hc
      have hlow : c.toNat < 128 := by
        simpa using List.all_eq_true.mp hall c hc
      exact plainChar_of_lt (by have := htext c hc; omega)
    rw [List.map_congr_left hsame, List.map_id']
  next => rfl

/-- What a character of an accepted text becomes belongs to the number or to
its padding. -/
theorem isNumeral_plainChar (hread : readDecimal? text = some x) {c : Char}
    (hc : c ∈ text) (hblank : isPlainBlank (plainChar c) = false) :
    isNumeral (plainChar c) = true := by
  apply isNumeral_of_mem_plainForm hread _ hblank
  rw [plainForm_eq_map fun d hd => toNat_ne_of_mem hread hd]
  exact List.mem_map_of_mem hc

theorem isPlainBlank_plainChar (hread : readDecimal? text = some x)
    {c : Char} (hc : c ∈ text) (hblank : isBlank c = true) :
    isPlainBlank (plainChar c) = true := by
  by_cases hlow : c.toNat < 127
  · rw [plainChar_of_lt hlow]
    by_contra hother
    have hnumeral := isNumeral_of_mem hread hc hlow (by simpa using hother)
    simp [isBlank_eq_false_of_isNumeral hnumeral] at hblank
  · rw [plainChar, if_neg hlow, if_pos hblank]
    decide

theorem readDecimal?_trim (hread : readDecimal? text = some x) :
    readDecimal? (trim text) = some x := by
  obtain ⟨before, after, hbefore, hafter, htext⟩ := exists_trim text
  have hmem : ∀ c, c ∈ before ∨ c ∈ trim text ∨ c ∈ after → c ∈ text := by
    intro c hc
    rw [htext, List.append_assoc, List.mem_append, List.mem_append]
    exact hc
  have hpadding : ∀ blanks : List Char, AllBlank blanks →
      (∀ c ∈ blanks, c ∈ text) →
      ∀ c ∈ blanks.map plainChar, isPlainBlank c = true := by
    intro blanks hblanks hblanksMem c hc
    obtain ⟨d, hd, rfl⟩ := List.mem_map.mp hc
    exact isPlainBlank_plainChar hread (hblanksMem d hd) (hblanks d hd)
  have hplain : unpadded (plainForm text) =
      unpadded (plainForm (trim text)) := by
    rw [plainForm_eq_map fun c hc => toNat_ne_of_mem hread hc,
      plainForm_eq_map fun c hc =>
        toNat_ne_of_mem hread (hmem c (.inr (.inl hc)))]
    conv_lhs => rw [htext, List.map_append, List.map_append]
    exact strip_append _
      (hpadding before hbefore fun c hc => hmem c (.inl hc))
      (hpadding after hafter fun c hc => hmem c (.inr (.inr hc)))
  rw [readDecimal?, ← hplain]
  exact hread

end TreeGrowth.Decimal
