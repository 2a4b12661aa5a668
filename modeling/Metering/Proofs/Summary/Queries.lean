import Metering.Proofs.Summary.Calls
import Mathlib.Data.List.Induction

/-! # What a summary asks of its estimator

Every number that is observed is inserted once, and every collection asks once for each configured
quantile. The estimator goes along with these queries, whatever it is.
-/
namespace Metering.Summary

/-- What an estimator is told or asked. -/
inductive Query
  | insert (v : Float)
  | get (q : Float)

def Query.inserted? : Query → Option Float
  | .insert v => some v
  | .get _ => none

def Act.value? : Act → Option Float
  | .observe v => if v.isNaN then none else some v
  | .collect => none

def values (acts : List Act) : List Float :=
  acts.filterMap Act.value?

def asking (quantiles : List Quantile) : List Query :=
  quantiles.map fun q => .get q.quantile

def Act.queries (quantiles : List Quantile) : Act → List Query
  | .observe v => if v.isNaN then [] else [.insert v]
  | .collect => asking quantiles

def queries (quantiles : List Quantile) (acts : List Act) : List Query :=
  acts.flatMap (Act.queries quantiles)

theorem observed_number {v : Float} (hv : v.isNaN = false) (quantiles : List Quantile) :
    values [.observe v] = [v] ∧ queries quantiles [.observe v] = [.insert v] := by
  have hvalue : (Act.observe v).value? = some v := if_neg (hv ▸ Bool.false_ne_true)
  have hquery : (Act.observe v).queries quantiles = [.insert v] := if_neg (hv ▸ Bool.false_ne_true)
  simp [values, queries, hvalue, hquery]

theorem observed_nan {v : Float} (hv : v.isNaN = true) (quantiles : List Quantile) :
    values [.observe v] = [] ∧ queries quantiles [.observe v] = [] := by
  have hvalue : (Act.observe v).value? = none := if_pos hv
  have hquery : (Act.observe v).queries quantiles = [] := if_pos hv
  simp [values, queries, hvalue, hquery]

theorem collect_asks (quantiles : List Quantile) :
    values [.collect] = [] ∧ queries quantiles [.collect] = asking quantiles := by
  simp [values, queries, Act.value?, Act.queries]

variable {ε : Type} [Estimator ε]

def serve (query : Query) (e : ε) : ε × Option Float :=
  match query with
  | .insert v => (Estimator.insert v e, none)
  | .get q => ((Estimator.get q e).2, some (Estimator.get q e).1)

theorem values_append (acts rest : List Act) : values (acts ++ rest) = values acts ++ values rest :=
  List.filterMap_append

theorem queries_append (quantiles : List Quantile) (acts rest : List Act) :
    queries quantiles (acts ++ rest) = queries quantiles acts ++ queries quantiles rest :=
  List.flatMap_append

/-- Insertions are the numbers of the run, each once. -/
theorem inserted_queries (quantiles : List Quantile) (acts : List Act) :
    (queries quantiles acts).filterMap Query.inserted? = values acts := by
  induction acts with
  | nil => rfl
  | cons a acts ih =>
    have hact : (queries quantiles [a]).filterMap Query.inserted? = values [a] := by
      cases a with
      | observe v =>
        cases hv : v.isNaN with
        | true =>
          obtain ⟨hvalues,hqueries⟩ := observed_nan hv quantiles
          simp [hvalues, hqueries]
        | false =>
          obtain ⟨hvalues,hqueries⟩ := observed_number hv quantiles
          simp [hvalues, hqueries, Query.inserted?]
      | collect =>
        obtain ⟨hvalues,hqueries⟩ := collect_asks quantiles
        simp [hvalues, hqueries, asking, Query.inserted?]
    rw [← List.singleton_append, values_append, queries_append, List.filterMap_append, hact, ih]

theorem ask_concat (quantiles : List Quantile) (q : Quantile) (e : ε) :
    ask (quantiles ++ [q]) e =
      ((ask quantiles e).1 ++ [⟨q.quantile, (Estimator.get q.quantile (ask quantiles e).2).1⟩],
        (Estimator.get q.quantile (ask quantiles e).2).2) := by
  simp [ask]

theorem ask_snd (quantiles : List Quantile) (e : ε) : (ask quantiles e).2 = reached serve (asking quantiles) e := by
  induction quantiles using List.reverseRecOn with
  | nil => rfl
  | append_singleton quantiles q ih =>
    have hasking : asking (quantiles ++ [q]) = asking quantiles ++ [.get q.quantile] := by simp [asking]
    rw [ask_concat, hasking, reached_append, ← ih]
    rfl

theorem length_ask (quantiles : List Quantile) (e : ε) : (ask quantiles e).1.length = quantiles.length := by
  induction quantiles using List.reverseRecOn with
  | nil => rfl
  | append_singleton quantiles q ih => simp [ask_concat, ih]

/-- The answer for a quantile comes after the questions for those before it. -/
theorem getElem?_ask (quantiles : List Quantile) (e : ε) (i : Nat) :
    (ask quantiles e).1[i]? = quantiles[i]?.map fun q =>
      ⟨q.quantile, (Estimator.get q.quantile (reached serve (asking (quantiles.take i)) e)).1⟩ := by
  induction quantiles using List.reverseRecOn with
  | nil => rfl
  | append_singleton quantiles q ih =>
    have hlength := length_ask quantiles e
    rw [ask_concat]
    rcases Nat.lt_trichotomy i quantiles.length with hlt | rfl | hgt
    · rw [List.getElem?_append_left (by omega), List.getElem?_append_left hlt,
        List.take_append_of_le_length (Nat.le_of_lt hlt)]
      exact ih
    · simp [hlength, ask_snd]
    · rw [List.getElem?_eq_none (by simp [hlength]; omega), List.getElem?_eq_none (by simp; omega)]
      rfl

structure Told (acts : List Act) (s t : Summary ε) : Prop where
  quantiles : t.quantiles = s.quantiles
  count : t.count = s.count + (values acts).length
  sum : t.sum = (values acts).foldl (· + ·) s.sum
  estimator : t.estimator = s.estimator.map (reached serve (queries s.quantiles acts))

variable {s t u : Summary ε} {acts rest : List Act}

theorem told_nil (s : Summary ε) : Told [] s s where
  quantiles := rfl
  count := rfl
  sum := rfl
  estimator := by cases s.estimator <;> rfl

theorem Told.append (h : Told acts s t) (h' : Told rest t u) : Told (acts ++ rest) s u where
  quantiles := h'.quantiles.trans h.quantiles
  count := by simp [h'.count, h.count, values_append, Nat.add_assoc]
  sum := by simp [h'.sum, h.sum, values_append]
  estimator := by
    rw [h'.estimator, h.estimator, h.quantiles, Option.map_map, queries_append]
    congr 1
    funext e
    exact (reached_append serve _ _ e).symm

theorem Stepped.told {a : Act} (h : Stepped s a t) : Told [a] s t := by
  cases h with
  | dropped hv =>
    obtain ⟨hvalues,hqueries⟩ := observed_nan hv s.quantiles
    exact ⟨rfl, by rw [hvalues]; rfl, by rw [hvalues]; rfl, by rw [hqueries]; exact (told_nil s).estimator⟩
  | @applied v b hv hq hb =>
    obtain ⟨hvalues,hqueries⟩ := observed_number hv s.quantiles
    exact ⟨rfl, by rw [hvalues]; rfl, by rw [hvalues]; rfl, by rw [hqueries]; rfl⟩
  | collected hq hb =>
    obtain ⟨hvalues,hqueries⟩ := collect_asks s.quantiles
    refine ⟨rfl, by rw [hvalues]; rfl, by rw [hvalues]; rfl, ?_⟩
    rw [hqueries]
    change s.asked.2 = _
    cases he : s.estimator with
    | none => simp [asked, he]
    | some e => simp [asked, he, ask_snd]

/-- A run counts and sums the numbers it is given, and the estimator answers its queries in turn. -/
theorem told_run (hs : Settled s) (hroom : s.count + acts.countP Act.counts < 2 ^ 63) :
    Told acts s (reached call acts s) := by
  induction acts using List.reverseRecOn with
  | nil => exact told_nil s
  | append_singleton acts a ih =>
    rw [List.countP_append] at hroom
    have hbefore : s.count + acts.countP Act.counts < 2 ^ 63 := by omega
    obtain ⟨hsettled,hcount⟩ := settled_run hs hbefore
    have hlast := (stepped (a := a) hsettled (by omega)).told
    rw [reached_append]
    exact (ih hbefore).append hlast

end Metering.Summary
