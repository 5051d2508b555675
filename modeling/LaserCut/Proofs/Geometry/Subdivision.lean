import LaserCut.Proofs.Geometry.Dyadic
import LaserCut.Proofs.Geometry.Flatten

/-!
# Where flattening samples a curve

Flattening halves the unit interval into dyadic spans and puts a point at the end of each.

* `finalSpans`: the spans that are not halved, in order;
* `flatten_eq_map_node`: the points of a flattened curve are the nodes at the ends of its final
  spans;
* `flatten_isDyadicFlattening`: for binary64 numbers the final spans are a partition of the unit
  interval into parts whose samples are near their chords, except those that may not be halved
  again, and no span was halved without need.
-/

namespace LaserCut.Curve

variable {α : Type} [Scalar α]

/-- The point of a flattened curve at a dyadic parameter: an end of the curve as it is stored, or a
sample. -/
def node (curve : Curve α) (depth index : Nat) : Point α :=
  if index = 0 then curve.start
  else if index = 2 ^ depth then curve.finish
  else curve.point (dyadic depth index)

def startNode (curve : Curve α) (s : Span) : Point α := curve.node s.depth s.index

def finishNode (curve : Curve α) (s : Span) : Point α := curve.node s.depth (s.index + 1)

/-- The sample in the middle of a span is near the middle of its chord. -/
def isFlatOn (curve : Curve α) (tolerance : α) (s : Span) : Bool :=
  (curve.point s.middle).near tolerance ((curve.startNode s).midpoint (curve.finishNode s))

/-- The spans that a span is halved into, which may be halved `n` more times. -/
def finalSpans (curve : Curve α) (tolerance : α) : (n : Nat) → Span → List Span
  | 0, s => [s]
  | n + 1, s =>
    if decide (minHalvings ≤ s.depth) && curve.isFlatOn tolerance s then [s]
    else curve.finalSpans tolerance n s.left ++ curve.finalSpans tolerance n s.right

/-- The spans whose ends are the points of a flattened curve. -/
def spans (curve : Curve α) (tolerance : α) : List Span :=
  curve.finalSpans tolerance maxHalvings .whole

/-! ## Nodes -/

section Nodes

variable (curve : Curve α) {s : Span}

theorem finishNode_left (s : Span) : curve.finishNode s.left = curve.point s.middle := by
  have inner : 2 * s.index + 1 ≠ 2 ^ (s.depth + 1) := by
    rw [Nat.pow_succ]
    omega
  show curve.node (s.depth + 1) (2 * s.index + 1) = _
  rw [node, if_neg (by omega), if_neg inner]
  rfl

theorem startNode_right (s : Span) : curve.startNode s.right = curve.point s.middle :=
  curve.finishNode_left s

variable [ExactHalving α] (h : s.depth < maxHalvings)

include h

theorem node_two_mul {j : Nat} (hj : j ≤ 2 ^ s.depth) :
    curve.node (s.depth + 1) (2 * j) = curve.node s.depth j := by
  have zero : 2 * j = 0 ↔ j = 0 := by omega
  have last : 2 * j = 2 ^ (s.depth + 1) ↔ j = 2 ^ s.depth := by
    rw [Nat.pow_succ]
    omega
  simp only [node, zero, last, ExactHalving.double h hj]

theorem startNode_left : curve.startNode s.left = curve.startNode s :=
  curve.node_two_mul h (Nat.le_of_lt s.index_lt)

theorem finishNode_right : curve.finishNode s.right = curve.finishNode s :=
  curve.node_two_mul h s.index_lt

end Nodes

/-! ## The recursion -/

section Recursion

variable [ExactHalving α] (curve : Curve α) (tolerance : α)

theorem isFlat_eq_isFlatOn {s : Span} (h : s.depth < maxHalvings) :
    curve.isFlat tolerance s.start s.finish (curve.startNode s) (curve.finishNode s) =
      curve.isFlatOn tolerance s := by
  rw [isFlat, s.half_start_finish h, isFlatOn]

/-- Parameters and points that are handed on always belong to the same span. -/
theorem subdivide_eq_map_node :
    ∀ {n : Nat} {s : Span}, s.depth + n = maxHalvings →
      curve.subdivide tolerance n s.start s.finish (curve.startNode s) (curve.finishNode s) =
        (curve.finalSpans tolerance n s).map curve.finishNode
  | 0, _, _ => rfl
  | n + 1, s, h => by
    have inner : s.depth < maxHalvings := by omega
    have deep : n + 1 ≤ maxHalvings - minHalvings ↔ minHalvings ≤ s.depth := by
      have bounds : maxHalvings = 16 ∧ minHalvings = 2 := ⟨rfl, rfl⟩
      omega
    have first := subdivide_eq_map_node (n := n) (s := s.left)
      (Eq.trans (by show s.depth + 1 + n = _; omega) h)
    have second := subdivide_eq_map_node (n := n) (s := s.right)
      (Eq.trans (by show s.depth + 1 + n = _; omega) h)
    rw [s.start_left inner, s.finish_left, curve.startNode_left inner,
      curve.finishNode_left] at first
    rw [s.start_right, s.finish_right inner, curve.startNode_right,
      curve.finishNode_right inner] at second
    rw [subdivide, finalSpans, curve.isFlat_eq_isFlatOn tolerance inner, s.half_start_finish inner]
    simp only [deep]
    split
    · rfl
    · rw [List.map_append, ← first, ← second]

/-- The points of a flattened curve that is not a line. -/
theorem flatten_eq_map_node (h : ∀ p q, curve ≠ .line p q) :
    curve.flatten tolerance = (curve.spans tolerance).map curve.finishNode := by
  have recursion := subdivide_eq_map_node curve tolerance (n := maxHalvings) (s := .whole)
    (Nat.zero_add _)
  rw [Span.start_whole, Span.finish_whole] at recursion
  rw [spans, ← recursion]
  cases curve with
  | line p q => exact absurd rfl (h p q)
  | quadratic | cubic | arc => rfl

end Recursion

/-! ## The final spans -/

section FinalSpans

variable {curve : Curve α} {tolerance : α}

theorem within_of_mem_finalSpans :
    ∀ {n : Nat} {r s : Span}, r ∈ curve.finalSpans tolerance n s → r.Within s
  | 0, _, s, h => by
    rw [List.mem_singleton.mp h]
    exact .refl s
  | n + 1, r, s, h => by
    rw [finalSpans] at h
    split at h
    · rw [List.mem_singleton.mp h]
      exact .refl s
    · rcases List.mem_append.mp h with h | h
      · exact (within_of_mem_finalSpans h).trans s.left_within
      · exact (within_of_mem_finalSpans h).trans s.right_within

/-- No span is halved more often than it may be. -/
theorem depth_le_of_mem_finalSpans :
    ∀ {n : Nat} {r s : Span}, r ∈ curve.finalSpans tolerance n s → r.depth ≤ s.depth + n
  | 0, _, s, h => by
    rw [List.mem_singleton.mp h]
    exact Nat.le_refl _
  | n + 1, r, s, h => by
    rw [finalSpans] at h
    split at h
    · rw [List.mem_singleton.mp h]
      exact Nat.le_add_right ..
    · have depths : s.left.depth = s.depth + 1 ∧ s.right.depth = s.depth + 1 := ⟨rfl, rfl⟩
      rcases List.mem_append.mp h with h | h <;> have := depth_le_of_mem_finalSpans h <;> omega

/-- A span that could be halved again is final only if it is flat and deep enough. -/
theorem flat_of_mem_finalSpans :
    ∀ {n : Nat} {r s : Span}, r ∈ curve.finalSpans tolerance n s →
      r.depth < s.depth + n → minHalvings ≤ r.depth ∧ curve.isFlatOn tolerance r = true
  | 0, _, s, h, less => by
    rw [List.mem_singleton.mp h] at less
    exact absurd less (Nat.lt_irrefl _)
  | n + 1, r, s, h, less => by
    rw [finalSpans] at h
    split at h
    · rename_i accepted
      rw [Bool.and_eq_true, decide_eq_true_eq] at accepted
      rw [List.mem_singleton.mp h]
      exact accepted
    · have depths : s.left.depth = s.depth + 1 ∧ s.right.depth = s.depth + 1 := ⟨rfl, rfl⟩
      rcases List.mem_append.mp h with h | h
      · exact flat_of_mem_finalSpans h (by omega)
      · exact flat_of_mem_finalSpans h (by omega)

/-- A span that was halved is not flat, unless every span is halved there. -/
theorem not_flat_of_below :
    ∀ {n : Nat} {r s t : Span}, r ∈ curve.finalSpans tolerance n s → t.Within s →
      r.Below t → minHalvings ≤ t.depth → curve.isFlatOn tolerance t = false
  | 0, _, s, t, h, within, below, _ => by
    rw [List.mem_singleton.mp h] at below
    exact absurd below.2 (Nat.not_lt_of_le within.1)
  | n + 1, r, s, t, h, within, below, deep => by
    rw [finalSpans] at h
    split at h
    · rw [List.mem_singleton.mp h] at below
      exact absurd below.2 (Nat.not_lt_of_le within.1)
    · rename_i halved
      rcases Nat.lt_or_ge s.depth t.depth with less | same
      · -- The final span lies within the half that `t` lies within.
        rcases Span.Below.left_or_right ⟨within, less⟩ with side | side <;>
          rcases List.mem_append.mp h with h | h
        · exact not_flat_of_below h side below deep
        · exact absurd (within_of_mem_finalSpans h) (Span.not_within_right (below.1.trans side))
        · exact absurd (below.1.trans side) (Span.not_within_right (within_of_mem_finalSpans h))
        · exact not_flat_of_below h side below deep
      · rw [Span.eq_of_within within same] at deep ⊢
        rw [Bool.and_eq_true, not_and, decide_eq_true_eq, Bool.not_eq_true] at halved
        exact halved deep

/-- Each span begins where the one before it ends: so says any pair of functions that agree on where
the halves of a span begin and end. -/
theorem map_finalSpans {β : Type} (f g : Span → β)
    (start : ∀ s : Span, s.depth < maxHalvings → f s.left = f s)
    (meet : ∀ s : Span, f s.right = g s.left)
    (finish : ∀ s : Span, s.depth < maxHalvings → g s.right = g s) :
    ∀ {n : Nat} {s : Span}, s.depth + n ≤ maxHalvings →
      (curve.finalSpans tolerance n s).map f ++ [g s] =
        f s :: (curve.finalSpans tolerance n s).map g
  | 0, _, _ => rfl
  | n + 1, s, h => by
    have inner : s.depth < maxHalvings := by omega
    have first := map_finalSpans f g start meet finish (n := n) (s := s.left)
      (by show s.depth + 1 + n ≤ _; omega)
    have second := map_finalSpans f g start meet finish (n := n) (s := s.right)
      (by show s.depth + 1 + n ≤ _; omega)
    rw [start s inner, ← meet s] at first
    rw [finish s inner] at second
    rw [finalSpans]
    split
    · rfl
    · rw [List.map_append, List.map_append, List.append_assoc, second, ← List.cons_append, ← first,
        List.append_assoc]
      rfl

theorem length_finalSpans_le :
    ∀ {n : Nat} {s : Span}, (curve.finalSpans tolerance n s).length ≤ 2 ^ n
  | 0, _ => Nat.le_refl _
  | n + 1, s => by
    have first := length_finalSpans_le (n := n) (s := s.left)
    have second := length_finalSpans_le (n := n) (s := s.right)
    rw [finalSpans, Nat.pow_succ]
    split
    · have := Nat.two_pow_pos n
      rw [List.length_singleton]
      omega
    · rw [List.length_append]
      omega

/-- Every span is halved until it is deep enough. -/
theorem le_length_finalSpans :
    ∀ {n : Nat} {s : Span}, minHalvings ≤ s.depth + n →
      2 ^ (minHalvings - s.depth) ≤ (curve.finalSpans tolerance n s).length
  | 0, s, h => by
    rw [Nat.add_zero] at h
    rw [Nat.sub_eq_zero_of_le h]
    exact Nat.le_refl _
  | n + 1, s, h => by
    have first := le_length_finalSpans (n := n) (s := s.left)
      (by show _ ≤ s.depth + 1 + n; omega)
    have second := le_length_finalSpans (n := n) (s := s.right)
      (by show _ ≤ s.depth + 1 + n; omega)
    rw [finalSpans]
    split
    · rename_i accepted
      rw [Bool.and_eq_true, decide_eq_true_eq] at accepted
      rw [Nat.sub_eq_zero_of_le accepted.1]
      exact Nat.le_refl _
    · have half : 2 ^ (minHalvings - s.depth) ≤ 2 ^ (minHalvings - (s.depth + 1)) * 2 := by
        rw [← Nat.pow_succ]
        exact Nat.pow_le_pow_right (by decide) (by omega)
      have depths : s.left.depth = s.depth + 1 ∧ s.right.depth = s.depth + 1 := ⟨rfl, rfl⟩
      rw [depths.1] at first
      rw [depths.2] at second
      rw [List.length_append]
      omega

theorem finalSpans_ne_nil {n : Nat} {s : Span} : curve.finalSpans tolerance n s ≠ [] := by
  induction n generalizing s with
  | zero => exact List.cons_ne_nil _ _
  | succ n ih =>
    rw [finalSpans]
    split
    · exact List.cons_ne_nil _ _
    · exact List.append_ne_nil_of_left_ne_nil ih _

/-- Only the last span ends where the unit interval ends. -/
theorem index_ne_of_mem_dropLast :
    ∀ {n : Nat} {r s : Span}, r ∈ (curve.finalSpans tolerance n s).dropLast →
      r.index + 1 ≠ 2 ^ r.depth
  | 0, _, _, h => absurd h List.not_mem_nil
  | n + 1, r, s, h => by
    rw [finalSpans] at h
    split at h
    · exact absurd h List.not_mem_nil
    · rw [List.dropLast_append_of_ne_nil finalSpans_ne_nil] at h
      rcases List.mem_append.mp h with h | h
      · exact (within_of_mem_finalSpans h).index_ne_of_left
      · exact index_ne_of_mem_dropLast h

end FinalSpans

/-! ## Flattened curves -/

/-- Spans that a curve is flattened on: a partition of the unit interval into dyadic spans, halved
where a test of their middles asks for it. -/
structure IsDyadicPartition (curve : Curve α) (tolerance : α) (spans : List Span) : Prop where
  /-- The first span begins at 0, each other where the one before it ends, and the last ends at
  1. -/
  meet : (spans.map fun s => (s.start : α)) ++ [1] = 0 :: spans.map fun s => (s.finish : α)
  increasing : ∀ s ∈ spans, (s.start : α) < s.finish
  length : 4 ≤ spans.length ∧ spans.length ≤ 65536
  depth : ∀ s ∈ spans, 2 ≤ s.depth ∧ s.depth ≤ 16
  flat : ∀ s ∈ spans, s.depth < 16 → curve.isFlatOn tolerance s = true
  /-- A span that was halved failed the test, unless it was one of the first three. -/
  halved : ∀ s, 2 ≤ s.depth → (∃ r ∈ spans, r.Below s) → curve.isFlatOn tolerance s = false

/-- The points of a flattened curve: samples at the inner ends of the spans of such a partition, and
the finish of the curve. A line has its finish only. -/
def IsDyadicFlattening (curve : Curve α) (tolerance : α) (points : List (Point α)) : Prop :=
  match curve with
  | .line _ q => points = [q]
  | curve => ∃ spans : List Span, curve.IsDyadicPartition tolerance spans ∧
      points = (spans.dropLast.map fun s => curve.point s.finish) ++ [curve.finish]

/-- The points at the inner ends of the final spans are samples. -/
theorem finishNode_eq_point (curve : Curve α) (tolerance : α) {s : Span}
    (h : s ∈ (curve.spans tolerance).dropLast) :
    curve.finishNode s = curve.point s.finish := by
  rw [finishNode, node, if_neg (Nat.succ_ne_zero _), if_neg (index_ne_of_mem_dropLast h)]
  rfl

section Partition

variable [ExactHalving α] (curve : Curve α) (tolerance : α)

theorem isDyadicPartition_spans : curve.IsDyadicPartition tolerance (curve.spans tolerance) where
  meet := by
    have meet : ((curve.spans tolerance).map fun s => (s.start : α)) ++ [Span.whole.finish] =
        Span.whole.start :: (curve.spans tolerance).map fun s => s.finish :=
      map_finalSpans (fun s => s.start) (fun s => s.finish) (fun _ => Span.start_left)
        (fun _ => rfl) (fun _ => Span.finish_right) (Nat.le_refl _)
    rwa [Span.start_whole, Span.finish_whole] at meet
  increasing s hs := s.start_lt_finish (depth_le_of_mem_finalSpans hs)
  length := ⟨le_length_finalSpans (s := .whole) (by decide), length_finalSpans_le⟩
  depth s hs := by
    have most : s.depth ≤ 16 := depth_le_of_mem_finalSpans hs
    refine ⟨?_, most⟩
    rcases Nat.lt_or_ge s.depth 16 with less | full
    · exact (flat_of_mem_finalSpans hs less).1
    · omega
  flat s hs less := (flat_of_mem_finalSpans hs less).2
  halved s deep := fun ⟨r, hr, below⟩ =>
    not_flat_of_below hr s.within_whole below deep

theorem flatten_eq_map_point (h : ∀ p q, curve ≠ .line p q) :
    curve.flatten tolerance =
      ((curve.spans tolerance).dropLast.map fun s => curve.point s.finish) ++ [curve.finish] := by
  have last := curve.getLast?_flatten tolerance
  rw [flatten_eq_map_node curve tolerance h] at last ⊢
  obtain ⟨inner, eq⟩ := List.getLast?_eq_some_iff.mp last
  have samples : inner = (curve.spans tolerance).dropLast.map curve.finishNode := by
    rw [List.map_dropLast, eq, List.dropLast_concat]
  rw [eq, samples]
  congr 1
  exact List.map_congr_left fun s hs => curve.finishNode_eq_point tolerance hs

end Partition

/-- Flattening binary64 curves, whatever the tolerance. -/
theorem flatten_isDyadicFlattening (curve : Curve Float) (tolerance : Float) :
    curve.IsDyadicFlattening tolerance (curve.flatten tolerance) := by
  cases curve with
  | line p q => rfl
  | quadratic | cubic | arc =>
    exact ⟨_, isDyadicPartition_spans _ tolerance, flatten_eq_map_point _ tolerance nofun⟩

end LaserCut.Curve
