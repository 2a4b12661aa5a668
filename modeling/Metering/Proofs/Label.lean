import Metering.Label
import Mathlib.Computability.Language
import Mathlib.Data.Char

/-! # Names as languages

Which texts are names of labels and of metrics is said over all characters by two regular languages:
a first character of one class and any number of further ones of a larger class. The checks accept
just these languages, but for label names that begin with two underscores.
-/
namespace Metering
open Computability

def ranged (low high : Char) : Language Char :=
  {word | ∃ c, word = [c] ∧ low ≤ c ∧ c ≤ high}

def Single (l : Language Char) : Prop :=
  ∀ word ∈ l, ∃ c, word = [c]

variable {l m : Language Char} {word : List Char} {c low high : Char}

theorem singleton_mem_ranged : [c] ∈ ranged low high ↔ low ≤ c ∧ c ≤ high := by
  constructor
  · rintro ⟨d,hd,hrange⟩
    exact List.singleton_inj.mp hd ▸ hrange
  · exact fun hrange => ⟨c, rfl, hrange⟩

theorem single_ranged (low high : Char) : Single (ranged low high) := by
  rintro _ ⟨c,rfl,_⟩
  exact ⟨c, rfl⟩

theorem Single.add (hl : Single l) (hm : Single m) : Single (l + m) :=
  fun word hword => hword.elim (hl word) (hm word)

theorem Single.mem_kstar (hl : Single l) : word ∈ l∗ ↔ ∀ c ∈ word, [c] ∈ l := by
  rw [Language.mem_kstar]
  constructor
  · rintro ⟨parts,rfl,hparts⟩ c hc
    obtain ⟨part,hpart,hmem⟩ := List.mem_flatten.mp hc
    obtain ⟨d,rfl⟩ := hl part (hparts part hpart)
    rw [List.mem_singleton.mp hmem]
    exact hparts [d] hpart
  · intro hall
    refine ⟨word.map List.singleton, ?_, ?_⟩
    · rw [← List.flatMap_def]
      exact (List.flatMap_singleton' word).symm
    · intro part hpart
      obtain ⟨c,hc,rfl⟩ := List.mem_map.mp hpart
      exact hall c hc

theorem Single.mem_mul_kstar (hl : Single l) (hm : Single m) :
    word ∈ l * m∗ ↔ ∃ c rest, word = c :: rest ∧ [c] ∈ l ∧ ∀ d ∈ rest, [d] ∈ m := by
  rw [Language.mem_mul]
  constructor
  · rintro ⟨start,hstart,rest,hrest,rfl⟩
    obtain ⟨c,rfl⟩ := hl start hstart
    exact ⟨c, rest, rfl, hstart, hm.mem_kstar.mp hrest⟩
  · rintro ⟨c,rest,rfl,hc,hrest⟩
    exact ⟨[c], hc, rest, hm.mem_kstar.mpr hrest, rfl⟩

theorem singleton_mem_add : [c] ∈ l + m ↔ [c] ∈ l ∨ [c] ∈ m := Iff.rfl

theorem between_iff : (decide (low ≤ c) && decide (c ≤ high)) = true ↔ [c] ∈ ranged low high := by
  rw [singleton_mem_ranged, Bool.and_eq_true, decide_eq_true_iff, decide_eq_true_iff]

theorem isDigit_iff : c.isDigit = true ↔ [c] ∈ ranged '0' '9' := between_iff

theorem isLower_iff : c.isLower = true ↔ [c] ∈ ranged 'a' 'z' := between_iff

theorem isUpper_iff : c.isUpper = true ↔ [c] ∈ ranged 'A' 'Z' := by
  rw [singleton_mem_ranged]
  exact decide_eq_true_iff

theorem isAlpha_iff : c.isAlpha = true ↔ [c] ∈ ranged 'a' 'z' + ranged 'A' 'Z' := by
  have hclasses : c.isAlpha = (c.isUpper || c.isLower) := rfl
  rw [hclasses, Bool.or_eq_true, isUpper_iff, isLower_iff, singleton_mem_add, or_comm]

theorem beq_iff_ranged {d : Char} : (c == d) = true ↔ [c] ∈ ranged d d := by
  rw [singleton_mem_ranged, beq_iff_eq, le_antisymm_iff, and_comm]

namespace Label

/-- `[a-zA-Z_]` -/
def starts : Language Char := ranged 'a' 'z' + ranged 'A' 'Z' + ranged '_' '_'

/-- `[a-zA-Z_][a-zA-Z0-9_]*` -/
def grammar : Language Char := starts * (starts + ranged '0' '9')∗

/-- What a label may be called: the beginning of two underscores is kept for internal use. -/
def Spelled (name : String) : Prop :=
  name.toList ∈ grammar ∧ ¬ ['_', '_'] <+: name.toList

theorem single_starts : Single starts :=
  ((single_ranged _ _).add (single_ranged _ _)).add (single_ranged _ _)

theorem isStart_iff : isStart c = true ↔ [c] ∈ starts := by
  rw [isStart, Bool.or_eq_true, isAlpha_iff, beq_iff_ranged]
  rfl

theorem isFollow_iff : isFollow c = true ↔ [c] ∈ starts + ranged '0' '9' := by
  rw [isFollow, Bool.or_eq_true, isStart_iff, isDigit_iff]
  rfl

theorem mem_grammar : word ∈ grammar ↔ ∃ c rest, word = c :: rest ∧ isStart c = true ∧ rest.all isFollow = true := by
  rw [grammar, single_starts.mem_mul_kstar (single_starts.add (single_ranged _ _))]
  simp only [← isStart_iff, ← isFollow_iff, List.all_eq_true]

theorem isName_iff {name : String} : isName name = true ↔ Spelled name := by
  rw [Spelled, mem_grammar, isName]
  split
  next h => simp [h]
  next h => simp [h]
  next c rest hline h =>
    have hprefix : ¬ ['_', '_'] <+: c :: rest := by
      rintro ⟨more,hmore⟩
      obtain ⟨rfl,hrest⟩ := List.cons.inj hmore
      exact hline more rfl hrest.symm
    rw [h, Bool.and_eq_true]
    constructor
    · exact fun hchars => ⟨⟨c, rest, rfl, hchars⟩, hprefix⟩
    · rintro ⟨⟨_,_,heq,hchars⟩,_⟩
      obtain ⟨rfl,rfl⟩ := List.cons.inj heq
      exact hchars

theorem not_mem_of_isName {name : String} (hc : isFollow c = false) (h : isName name = true) : c ∉ name.toList := by
  obtain ⟨d,rest,hname,hstart,hrest⟩ := mem_grammar.mp (isName_iff.mp h).1
  have hall : name.toList.all isFollow = true := by
    rw [hname, List.all_cons, hrest, isFollow, hstart]
    rfl
  intro hmem
  rw [List.all_eq_true.mp hall c hmem] at hc
  cases hc

end Label

namespace Metric

/-- `[a-zA-Z_:]` -/
def starts : Language Char := Label.starts + ranged ':' ':'

/-- `[a-zA-Z_:][a-zA-Z0-9_:]*` -/
def grammar : Language Char := starts * (starts + ranged '0' '9')∗

theorem single_starts : Single starts :=
  Label.single_starts.add (single_ranged _ _)

theorem isStart_iff : isStart c = true ↔ [c] ∈ starts := by
  rw [isStart, Bool.or_eq_true, Label.isStart_iff, beq_iff_ranged]
  rfl

theorem isFollow_iff : isFollow c = true ↔ [c] ∈ starts + ranged '0' '9' := by
  rw [isFollow, Bool.or_eq_true, isStart_iff, isDigit_iff]
  rfl

theorem isName_iff {name : String} : isName name = true ↔ name.toList ∈ grammar := by
  rw [grammar, single_starts.mem_mul_kstar (single_starts.add (single_ranged _ _)), isName]
  split
  next h => simp [h]
  next c rest h =>
    simp only [h, Bool.and_eq_true, isStart_iff, List.all_eq_true, isFollow_iff]
    constructor
    · exact fun hchars => ⟨c, rest, rfl, hchars⟩
    · rintro ⟨_,_,heq,hchars⟩
      obtain ⟨rfl,rfl⟩ := List.cons.inj heq
      exact hchars

end Metric
end Metering
