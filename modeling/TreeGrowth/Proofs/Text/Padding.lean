import TreeGrowth.Text.Blank
import Mathlib

/-!
# Padding

Stripping a text undoes the padding around it: a text is its stripped form
between blanks, and further blanks around it make no difference.  Around a
character that is kept, only the outer ends of the two parts are stripped.
-/

namespace TreeGrowth.Text

section Strip

variable {α : Type} {p : α → Bool}

/-- Drops what satisfies a condition at both ends. -/
def strip (p : α → Bool) (text : List α) : List α :=
  (text.dropWhile p).rdropWhile p

theorem rdropWhile_append_of_all {after : List α} (text : List α)
    (hafter : ∀ c ∈ after, p c = true) :
    (text ++ after).rdropWhile p = text.rdropWhile p := by
  have hreverse : ∀ c ∈ after.reverse, p c = true := by
    simpa using hafter
  simp only [List.rdropWhile, List.reverse_append]
  rw [List.dropWhile_append_of_pos hreverse]

theorem strip_append {before after : List α} (text : List α)
    (hbefore : ∀ c ∈ before, p c = true)
    (hafter : ∀ c ∈ after, p c = true) :
    strip p (before ++ text ++ after) = strip p text := by
  unfold strip
  rw [List.append_assoc, List.dropWhile_append_of_pos hbefore,
    List.dropWhile_append]
  split
  next hempty =>
    have hnone : after.dropWhile p = [] := by
      simpa [List.dropWhile_eq_nil_iff] using hafter
    rw [hnone, List.isEmpty_iff.mp hempty]
  next => exact rdropWhile_append_of_all _ hafter

theorem dropWhile_append_cons {c : α} (before after : List α)
    (hc : p c = false) :
    (before ++ c :: after).dropWhile p =
      before.dropWhile p ++ c :: after := by
  rw [List.dropWhile_append]
  split
  next hempty => simp [List.isEmpty_iff.mp hempty, hc]
  next => rfl

theorem rdropWhile_append_cons {c : α} (before after : List α)
    (hc : p c = false) :
    (before ++ c :: after).rdropWhile p =
      before ++ c :: after.rdropWhile p := by
  simp only [List.rdropWhile, List.reverse_append, List.reverse_cons,
    List.append_assoc, List.singleton_append]
  rw [dropWhile_append_cons _ _ hc]
  simp

theorem exists_strip (p : α → Bool) (text : List α) :
    ∃ before after, (∀ c ∈ before, p c = true) ∧
      (∀ c ∈ after, p c = true) ∧
      text = before ++ strip p text ++ after := by
  refine ⟨text.takeWhile p, (text.dropWhile p).rtakeWhile p, ?_, ?_, ?_⟩
  · intro c hc
    exact List.mem_takeWhile_imp hc
  · intro c hc
    exact List.mem_rtakeWhile_imp hc
  · rw [strip, List.append_assoc, List.rdropWhile_append_rtakeWhile,
      List.takeWhile_append_dropWhile]

end Strip

/-! ## Blank characters -/

def AllBlank (text : List Char) : Prop := ∀ c ∈ text, isBlank c = true

theorem allBlank_nil : AllBlank [] := by
  simp [AllBlank]

theorem allBlank_space : AllBlank [' '] := by
  simp only [AllBlank, List.forall_mem_singleton]
  decide

theorem AllBlank.append {first rest : List Char} (hfirst : AllBlank first)
    (hrest : AllBlank rest) : AllBlank (first ++ rest) :=
  List.forall_mem_append.mpr ⟨hfirst, hrest⟩

theorem AllBlank.notMem {blanks : List Char} (hblanks : AllBlank blanks)
    {c : Char} (hc : isBlank c = false) : c ∉ blanks := by
  intro hmem
  simp [hblanks c hmem] at hc

/-- No blank stands at either end of the text. -/
structure Bare (text : List Char) : Prop where
  head : ∀ c ∈ text.head?, isBlank c = false
  last : ∀ c ∈ text.getLast?, isBlank c = false

theorem bare_singleton_iff {c : Char} :
    Bare [c] ↔ isBlank c = false := by
  constructor
  · intro hbare
    exact hbare.head c rfl
  · intro hc
    constructor <;> simpa using hc

theorem Bare.trimEnd_append_append {text after : List Char}
    (hbare : Bare text) (hne : text ≠ []) (before : List Char)
    (hafter : AllBlank after) :
    trimEnd (before ++ text ++ after) = before ++ text := by
  change (before ++ text ++ after).rdropWhile isBlank = before ++ text
  rw [rdropWhile_append_of_all _ hafter, List.rdropWhile_eq_self_iff]
  intro hwhole hblank
  rw [List.getLast_append_of_ne_nil hwhole hne] at hblank
  have hlast := hbare.last _ (List.getLast?_eq_some_getLast hne)
  simp [hlast] at hblank

theorem Bare.trim_eq {text : List Char} (hbare : Bare text) :
    trim text = text := by
  have hstart : trimStart text = text := by
    cases text with
    | nil => rfl
    | cons c rest => simp [trimStart, hbare.head c rfl]
  rw [trim, hstart]
  by_cases hne : text = []
  · subst hne
    rfl
  · simpa using hbare.trimEnd_append_append hne [] allBlank_nil

theorem bare_trim (text : List Char) : Bare (trim text) := by
  constructor
  · intro c hc
    have hprefix : trim text <+: trimStart text :=
      List.rdropWhile_prefix isBlank (trimStart text)
    have hhead : c ∈ (trimStart text).head? := by
      obtain ⟨rest, hrest⟩ := hprefix
      rw [← hrest, List.head?_append, Option.mem_def.mp hc]
      rfl
    have hne : trimStart text ≠ [] := by
      rintro hnil
      simp [hnil] at hhead
    rw [Option.mem_def, List.head?_eq_some_head hne] at hhead
    rw [← Option.some.inj hhead]
    exact List.head_dropWhile_not isBlank hne
  · intro c hc
    have hne : trim text ≠ [] := by
      rintro hnil
      simp [hnil] at hc
    rw [Option.mem_def, List.getLast?_eq_some_getLast hne] at hc
    rw [← Option.some.inj hc]
    exact Bool.eq_false_iff.mpr
      (List.rdropWhile_last_not isBlank (trimStart text) hne)

theorem exists_trim (text : List Char) :
    ∃ before after, AllBlank before ∧ AllBlank after ∧
      text = before ++ trim text ++ after :=
  exists_strip isBlank text

theorem trim_sublist (text : List Char) : List.Sublist (trim text) text :=
  (List.rdropWhile_prefix isBlank _).sublist.trans
    (List.dropWhile_sublist isBlank)

theorem trim_eq_self_iff {text : List Char} : trim text = text ↔ Bare text :=
  ⟨fun htrim => htrim ▸ bare_trim text, Bare.trim_eq⟩

theorem trim_append {before after : List Char} (text : List Char)
    (hbefore : AllBlank before) (hafter : AllBlank after) :
    trim (before ++ text ++ after) = trim text :=
  strip_append text hbefore hafter

theorem trim_append_left {before : List Char} (text : List Char)
    (hbefore : AllBlank before) : trim (before ++ text) = trim text := by
  simpa using trim_append text hbefore allBlank_nil

theorem trim_append_right {after : List Char} (text : List Char)
    (hafter : AllBlank after) : trim (text ++ after) = trim text :=
  trim_append text allBlank_nil hafter

theorem trim_trimStart (text : List Char) :
    trim (trimStart text) = trim text := by
  have hblank : AllBlank (text.takeWhile isBlank) :=
    fun _ hc => List.mem_takeWhile_imp hc
  have hpadded := trim_append_left (trimStart text) hblank
  rw [trimStart, List.takeWhile_append_dropWhile] at hpadded
  exact hpadded.symm

theorem exists_trimEnd (text : List Char) :
    ∃ after, AllBlank after ∧ text = trimEnd text ++ after :=
  ⟨text.rtakeWhile isBlank, fun _ hc => List.mem_rtakeWhile_imp hc,
    List.rdropWhile_append_rtakeWhile.symm⟩

theorem trim_trimEnd (text : List Char) :
    trim (trimEnd text) = trim text := by
  obtain ⟨after, hafter, htext⟩ := exists_trimEnd text
  have hpadded := trim_append_right (trimEnd text) hafter
  rw [← htext] at hpadded
  exact hpadded.symm

theorem trimEnd_append_cons {c : Char} (before after : List Char)
    (hc : isBlank c = false) :
    trimEnd (before ++ c :: after) = before ++ c :: trimEnd after :=
  rdropWhile_append_cons before after hc

theorem trim_append_cons {c : Char} (before after : List Char)
    (hc : isBlank c = false) :
    trim (before ++ c :: after) = trimStart before ++ c :: trimEnd after := by
  rw [trim, trimStart, dropWhile_append_cons before after hc,
    trimEnd_append_cons _ _ hc]
  rfl

end TreeGrowth.Text
