import Metering.Text.Quoted
import Mathlib.Data.List.Basic
import Mathlib.Tactic.IntervalCases

/-! # Reading quoted text

What is written between quotes can be read back character by character, up to the closing quote. So no
two lists of texts are written alike.
-/
namespace Metering.Text

def hexDigit (c : Char) : Nat :=
  if c.toNat < 58 then c.toNat - 48 else c.toNat - 87

def hexValue (cs : List Char) : Nat :=
  cs.foldl (fun n c => 16 * n + hexDigit c) 0

theorem hexDigit_digitChar {d : Nat} (h : d < 16) : hexDigit d.digitChar = d ∧ d.digitChar ≠ '\x7d' := by
  interval_cases d <;> decide

theorem hexValue_toDigits (n : Nat) :
    hexValue (Nat.toDigits 16 n) = n ∧ ∀ c ∈ Nat.toDigits 16 n, c ≠ '\x7d' := by
  induction n using Nat.strong_induction_on with
  | _ n ih =>
    rcases Nat.lt_or_ge n 16 with h | h
    · obtain ⟨hd,hne⟩ := hexDigit_digitChar h
      simp [Nat.toDigits_of_lt_base h, hexValue, hd, hne]
    · obtain ⟨hv,hrest⟩ := ih (n / 16) (by omega)
      obtain ⟨hd,hne⟩ := hexDigit_digitChar (Nat.mod_lt n (by decide))
      rw [Nat.toDigits_of_base_le (by decide) h]
      constructor
      · rw [hexValue, List.foldl_append]
        change 16 * hexValue _ + hexDigit _ = n
        rw [hv, hd]
        omega
      · intro c hc
        rcases List.mem_append.mp hc with hc | hc
        · exact hrest c hc
        · rw [List.mem_singleton.mp hc]
          exact hne

/-- The first character inside quotes and what is written after it; none at the closing quote. -/
def unescape? : List Char → Option (Char × List Char)
  | '\\' :: 'u' :: '\x7b' :: rest =>
    some (Char.ofNat (hexValue (rest.takeWhile (· ≠ '\x7d'))), (rest.dropWhile (· ≠ '\x7d')).tail)
  | '\\' :: 'n' :: rest => some ('\n', rest)
  | '\\' :: 'r' :: rest => some ('\r', rest)
  | '\\' :: 't' :: rest => some ('\t', rest)
  | '\\' :: '0' :: rest => some ('\x00', rest)
  | '\\' :: c :: rest => some (c, rest)
  | '"' :: _ => none
  | c :: rest => some (c, rest)
  | [] => none

theorem unescape?_cons {c : Char} (hq : c ≠ '"') (hb : c ≠ '\\') (rest : List Char) :
    unescape? (c :: rest) = some (c, rest) := by
  unfold unescape?
  split <;> simp_all

theorem unescape?_code (n : Nat) (rest : List Char) :
    unescape? ('\\' :: 'u' :: '\x7b' :: (Nat.toDigits 16 n ++ '\x7d' :: rest)) = some (Char.ofNat n, rest) := by
  obtain ⟨hv,hne⟩ := hexValue_toDigits n
  have hall : ∀ c ∈ Nat.toDigits 16 n, decide (c ≠ '\x7d') = true := fun c hc => decide_eq_true (hne c hc)
  simp only [unescape?, List.takeWhile_append_of_pos hall, List.dropWhile_append_of_pos hall]
  simp [hv]

@[simp] theorem unescape?_quote (rest : List Char) : unescape? ('"' :: rest) = none := rfl

@[simp] theorem unescape?_escape (c : Char) (rest : List Char) : unescape? (escape c ++ rest) = some (c, rest) := by
  unfold escape
  split
  next h => simp [unescape?, h]
  next hq =>
    split
    next h => simp [unescape?, h]
    next hb =>
      split
      next h => simp [unescape?, h]
      next =>
        split
        next h => simp [unescape?, h]
        next =>
          split
          next h => simp [unescape?, h]
          next =>
            split
            next h => simp [unescape?, h]
            next =>
              split
              next => simpa using unescape?_code c.toNat rest
              next => exact unescape?_cons hq hb rest

/-- The closing quote is where the text ends. -/
theorem flatMap_escape_inj {cs ds rest rest' : List Char}
    (h : cs.flatMap escape ++ '"' :: rest = ds.flatMap escape ++ '"' :: rest') : cs = ds ∧ rest = rest' := by
  induction cs generalizing ds with
  | nil =>
    cases ds with
    | nil => exact ⟨rfl, (List.cons.inj h).2⟩
    | cons d ds =>
      have hread := congrArg unescape? h
      simp at hread
  | cons c cs ih =>
    cases ds with
    | nil =>
      have hread := congrArg unescape? h
      simp at hread
    | cons d ds =>
      have hread := congrArg unescape? h
      simp only [List.flatMap_cons, List.append_assoc, unescape?_escape, Option.some.injEq, Prod.mk.injEq] at hread
      obtain ⟨rfl,htail⟩ := hread
      obtain ⟨rfl,hrest⟩ := ih htail
      exact ⟨rfl, hrest⟩

theorem quoteChars_append_inj {cs ds rest rest' : List Char} (h : quoteChars cs ++ rest = quoteChars ds ++ rest') :
    cs = ds ∧ rest = rest' := by
  simp only [quoteChars, List.cons_append, List.append_assoc, List.cons.injEq, true_and, List.nil_append] at h
  exact flatMap_escape_inj h

variable {α : Type} {text : α → String} {p : α → Prop} {close : Char} {items items' : List α}

/-- Items whose text ends where it does whatever follows, and does not begin like the closing character. -/
structure Legible (text : α → String) (p : α → Prop) (close : Char) : Prop where
  close_ne : close ≠ ','
  unlike : ∀ x rest rest', p x → (text x).toList ++ rest ≠ close :: rest'
  inj : ∀ x y rest rest', p x → p y → (text x).toList ++ rest = (text y).toList ++ rest' → x = y ∧ rest = rest'

theorem toList_intercalate_cons (text : α → String) (x : α) (items : List α) :
    (", ".intercalate ((x :: items).map text)).toList =
      (text x).toList ++ items.flatMap fun y => ',' :: ' ' :: (text y).toList := by
  induction items generalizing x with
  | nil => simp
  | cons y items ih =>
    rw [List.map_cons, List.map_cons, String.intercalate_cons_cons, ← List.map_cons, String.toList_append, ih y]
    simp

/-- After the first item the list is read on item by item, up to the closing character. -/
theorem Legible.flatMap_inj (h : Legible text p close) (hp : ∀ x ∈ items, p x) (hp' : ∀ x ∈ items', p x)
    (heq : items.flatMap (fun x => ',' :: ' ' :: (text x).toList) ++ [close] =
      items'.flatMap (fun x => ',' :: ' ' :: (text x).toList) ++ [close]) : items = items' := by
  induction items generalizing items' with
  | nil =>
    cases items' with
    | nil => rfl
    | cons y items' => exact absurd (List.cons.inj heq).1 h.close_ne
  | cons x items ih =>
    cases items' with
    | nil => exact absurd (List.cons.inj heq).1.symm h.close_ne
    | cons y items' =>
      obtain ⟨hx,hrest⟩ := List.forall_mem_cons.mp hp
      obtain ⟨hy,hrest'⟩ := List.forall_mem_cons.mp hp'
      simp only [List.flatMap_cons, List.cons_append, List.cons.injEq, true_and, List.append_assoc] at heq
      obtain ⟨rfl,htail⟩ := h.inj x y _ _ hx hy heq
      rw [ih hrest hrest' htail]

theorem Legible.enclosed_inj (h : Legible text p close) {opening closing : String} (hc : closing.toList = [close])
    (hp : ∀ x ∈ items, p x) (hp' : ∀ x ∈ items', p x)
    (heq : opening ++ ", ".intercalate (items.map text) ++ closing =
      opening ++ ", ".intercalate (items'.map text) ++ closing) : items = items' := by
  have hchars := congrArg String.toList heq
  simp only [String.toList_append, List.append_assoc, hc, List.append_cancel_left_eq] at hchars
  cases items with
  | nil =>
    cases items' with
    | nil => rfl
    | cons y items' =>
      rw [toList_intercalate_cons, List.append_assoc] at hchars
      exact absurd hchars.symm (h.unlike y _ [] (hp' y List.mem_cons_self))
  | cons x items =>
    obtain ⟨hx,hrest⟩ := List.forall_mem_cons.mp hp
    rw [toList_intercalate_cons, List.append_assoc] at hchars
    cases items' with
    | nil => exact absurd hchars (h.unlike x _ [] hx)
    | cons y items' =>
      obtain ⟨hy,hrest'⟩ := List.forall_mem_cons.mp hp'
      rw [toList_intercalate_cons, List.append_assoc] at hchars
      obtain ⟨rfl,htail⟩ := h.inj x y _ _ hx hy hchars
      rw [h.flatMap_inj hrest hrest' htail]

theorem legible_quote : Legible quote (fun _ => True) ']' where
  close_ne := by decide
  unlike item rest rest' _ h := by
    rw [quote, String.toList_ofList] at h
    exact absurd (List.cons.inj h).1 (by decide)
  inj item item' rest rest' _ _ h := by
    rw [quote, quote, String.toList_ofList, String.toList_ofList] at h
    exact (quoteChars_append_inj h).imp_left String.toList_inj.mp

/-- No two lists of texts are written alike. -/
theorem quoteList_injective : Function.Injective quoteList :=
  fun _ _ h => legible_quote.enclosed_inj rfl (fun _ _ => trivial) (fun _ _ => trivial) h

end Metering.Text
