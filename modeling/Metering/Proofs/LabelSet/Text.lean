import Metering.Proofs.Description
import Metering.Proofs.Label
import Metering.Proofs.Text.Quoted

/-! # Label sets as text

The text of a label set can be read back pair by pair: a name ends at the first equals sign, and the value
behind it is quoted. So label sets with valid names are written alike only if they are equal.
-/
namespace Metering.LabelSet
open Text

variable {s t : LabelSet} {pairs : List (String × String)} {p q : String × String}

def Named (s : LabelSet) : Prop :=
  ∀ p ∈ s.pairs, Label.isName p.1 = true

/-- Label sets as they come about: from pairs that are accepted, or as the labels of a series. -/
inductive Built : LabelSet → Prop
  | ofPairs {pairs : List (String × String)} {s : LabelSet} (h : ofPairs pairs = .ok s) : Built s
  | merged {o : Options} {labels reserved : List String} {kind : String} {d : Description}
      (h : Description.ofOptions o labels reserved kind = .ok d) (values : List String) :
      Built (d.constLabels.merge d.variableLabels values)

theorem Named.push {name value : String} (hs : s.Named) (h : s.push name value = .ok t) : t.Named := by
  unfold LabelSet.push at h
  split at h
  next => cases h
  next hvalid =>
    split at h
    next => cases h
    next =>
      cases h
      intro p hp
      rcases List.mem_append.mp hp with hp | hp
      · exact hs p hp
      · rw [List.mem_singleton.mp hp]
        simpa using hvalid

theorem Named.foldlM_push (hs : s.Named) (h : pairs.foldlM (fun s p => s.push p.1 p.2) s = .ok t) : t.Named := by
  induction pairs generalizing s with
  | nil =>
    cases h
    exact hs
  | cons p rest ih =>
    rw [List.foldlM_cons] at h
    cases hp : s.push p.1 p.2 with
    | error e =>
      rw [hp] at h
      cases h
    | ok u =>
      rw [hp] at h
      exact ih (hs.push hp) h

theorem Built.named (hs : Built s) : s.Named := by
  cases hs with
  | ofPairs h => exact Named.foldlM_push (fun _ hp => absurd hp List.not_mem_nil) h
  | merged h values =>
    have hacc := Description.accepted h
    intro p hp
    refine (hacc.valid p.1 ?_).1
    rcases List.mem_append.mp hp with hp | hp
    · rw [hacc.constLabels] at hp
      exact List.mem_append_left _ (List.mem_map_of_mem hp)
    · have hname := (List.of_mem_zip hp).1
      rw [hacc.variableLabels] at hname
      exact List.mem_append_right _ hname

/-- What stands before the first sign and what stands behind it. -/
theorem append_cons_inj {sign : Char} {xs ys rest rest' : List Char} (hx : sign ∉ xs) (hy : sign ∉ ys)
    (h : xs ++ sign :: rest = ys ++ sign :: rest') : xs = ys ∧ rest = rest' := by
  have hbefore (zs tail : List Char) (hz : sign ∉ zs) : (zs ++ sign :: tail).takeWhile (· != sign) = zs := by
    have hpos : ∀ c ∈ zs, (c != sign) = true := fun c hc => bne_iff_ne.mpr fun heq => hz (heq ▸ hc)
    rw [List.takeWhile_append_of_pos hpos]
    simp
  obtain rfl : xs = ys := by rw [← hbefore xs rest hx, h, hbefore ys rest' hy]
  exact ⟨rfl, (List.cons.inj (List.append_cancel_left h)).2⟩

theorem toList_pairText (p : String × String) : (pairText p).toList = p.1.toList ++ '=' :: quoteChars p.2.toList := by
  simp [pairText, quote]

theorem legible_pairText : Legible pairText (fun p => Label.isName p.1 = true) '\x7d' where
  close_ne := by decide
  unlike p rest rest' hp h := by
    obtain ⟨⟨c,more,hname,hstart,_⟩,_⟩ := (Label.isName_iff.mp hp).imp_left Label.mem_grammar.mp
    rw [toList_pairText, hname] at h
    rw [(List.cons.inj h).1] at hstart
    cases hstart
  inj p q rest rest' hp hq h := by
    have hsign : Label.isFollow '=' = false := by decide
    rw [toList_pairText, toList_pairText, List.append_assoc, List.append_assoc] at h
    obtain ⟨hname,hvalue⟩ := append_cons_inj (Label.not_mem_of_isName hsign hp) (Label.not_mem_of_isName hsign hq) h
    obtain ⟨hchars,hrest⟩ := quoteChars_append_inj hvalue
    exact ⟨Prod.ext (String.toList_inj.mp hname) (String.toList_inj.mp hchars), hrest⟩

/-- Label sets are written alike just when they have the same pairs in the same order. -/
theorem text_eq_iff (hs : Built s) (ht : Built t) : s.text = t.text ↔ s.pairs = t.pairs := by
  constructor
  · exact legible_pairText.enclosed_inj rfl hs.named ht.named
  · intro h
    rw [text, text, h]

/-- A value that is written like the end of its own pair and the beginning of another one. -/
def forged : LabelSet := ⟨[("env", "prod\", zone=\"a")]⟩

def zoned : LabelSet := ⟨[("env", "prod"), ("zone", "a")]⟩

def zonedDescription : Description :=
  { fullName := "jobs", help := "", constLabels := ⟨[("env", "prod")]⟩, variableLabels := ["zone"] }

theorem ofOptions_zoned :
    Description.ofOptions { name := "jobs", constLabels := [("env", "prod")] } ["zone"] [] "counter" =
      .ok zonedDescription := rfl

theorem text_eq_iff_forged : Built forged ∧ Built zoned ∧ forged.text ≠ zoned.text := by
  have hpairs : ofPairs forged.pairs = .ok forged := rfl
  have hforged : Built forged := .ofPairs hpairs
  have hzoned : Built zoned := .merged ofOptions_zoned ["a"]
  exact ⟨hforged, hzoned, fun h => absurd ((text_eq_iff hforged hzoned).mp h) (by decide)⟩

end Metering.LabelSet
