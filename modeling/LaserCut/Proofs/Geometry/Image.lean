import Mathlib.Tactic.Ring
import LaserCut.Geometry.Curve

/-!
# Images of curves

Where a curve goes when it is mapped, in exact arithmetic: its kind stays, and its ends and samples
go where the map takes them, whichever of its points the program stores.

* `ExactArithmetic`: scalars whose sums and products obey the laws of a commutative ring. Sine,
  cosine and the other functions may be any functions;
* `Curve.IsImage`: one curve is the image of another under a map of the plane;
* `Curve.isImage_transformed`: a transformed curve is the image under the transform;
* `Curve.isImage_foldl_transformed`: under a chain of transforms it is the image under all of them
  in turn.
-/

namespace LaserCut

/-- Sums and products are exact, and numbers that compare equal are the same number. -/
class ExactArithmetic (α : Type) [Scalar α] : Prop where
  add_assoc (x y z : α) : x + y + z = x + (y + z)
  add_comm (x y : α) : x + y = y + x
  zero_add (x : α) : 0 + x = x
  neg_add_cancel (x : α) : -x + x = 0
  sub_eq_add_neg (x y : α) : x - y = x + -y
  mul_assoc (x y z : α) : x * y * z = x * (y * z)
  mul_comm (x y : α) : x * y = y * x
  one_mul (x : α) : 1 * x = x
  zero_mul (x : α) : 0 * x = 0
  add_mul (x y z : α) : (x + y) * z = x * z + y * z
  eq_of_beq {x y : α} : (x == y) = true → x = y

namespace ExactArithmetic

variable (α : Type) [Scalar α] [ExactArithmetic α]

/-- The ring whose operations are those of the program. -/
abbrev commRing : CommRing α where
  add_assoc := add_assoc
  add_comm := add_comm
  zero_add := zero_add
  add_zero x := (add_comm x 0).trans (zero_add x)
  neg_add_cancel := neg_add_cancel
  sub_eq_add_neg := sub_eq_add_neg
  mul_assoc := mul_assoc
  mul_comm := mul_comm
  one_mul := one_mul
  mul_one x := (mul_comm x 1).trans (one_mul x)
  zero_mul := zero_mul
  mul_zero x := (mul_comm x 0).trans (zero_mul x)
  left_distrib x y z := by rw [mul_comm, add_mul, mul_comm y, mul_comm z]
  right_distrib := add_mul
  nsmul := nsmulRec
  zsmul := zsmulRec

end ExactArithmetic

/-! ## Transforms -/

namespace Point

variable {α : Type} [Scalar α]

theorem add_eq_mk (p q : Point α) : p + q = ⟨p.x + q.x, p.y + q.y⟩ := rfl

theorem mul_eq_mk (p : Point α) (k : α) : p * k = ⟨p.x * k, p.y * k⟩ := rfl

end Point

namespace Transform

attribute [local instance] ExactArithmetic.commRing

variable {α : Type} [Scalar α] [ExactArithmetic α]

theorem apply_compose (s t : Transform α) (p : Point α) :
    (s.compose t).apply p = s.apply (t.apply p) := by
  simp only [apply, compose, Point.mk.injEq]
  constructor <;> ring

theorem identity_apply (p : Point α) : identity.apply p = p := by
  obtain ⟨x, y⟩ := p
  simp only [apply, identity, Point.mk.injEq]
  constructor <;> ring

theorem apply_lerp (t : Transform α) (p q : Point α) (u : α) :
    t.apply (p.lerp q u) = (t.apply p).lerp (t.apply q) u := by
  simp only [apply, Point.lerp, Point.mk.injEq]
  constructor <;> ring

/-- The three weights sum to one. -/
theorem apply_quadraticPoint (t : Transform α) (u : α) (p c q : Point α) :
    t.apply (Curve.quadraticPoint u p c q) =
      Curve.quadraticPoint u (t.apply p) (t.apply c) (t.apply q) := by
  simp only [apply, Curve.quadraticPoint, Point.add_eq_mk, Point.mul_eq_mk, Scalar.two,
    Point.mk.injEq]
  constructor <;> ring

/-- The four weights sum to one. -/
theorem apply_cubicPoint (t : Transform α) (u : α) (p c d q : Point α) :
    t.apply (Curve.cubicPoint u p c d q) =
      Curve.cubicPoint u (t.apply p) (t.apply c) (t.apply d) (t.apply q) := by
  simp only [apply, Curve.cubicPoint, Point.add_eq_mk, Point.mul_eq_mk, Scalar.three,
    Point.mk.injEq]
  constructor <;> ring

theorem eq_of_same {s t : Transform α} (h : s.same t = true) : s = t := by
  simp only [same, Bool.and_eq_true] at h
  obtain ⟨⟨⟨⟨⟨a, b⟩, c⟩, d⟩, e⟩, f⟩ := h
  have equal {x y : α} : (x == y) = true → x = y := ExactArithmetic.eq_of_beq
  rw [mk.injEq]
  exact ⟨equal a, equal b, equal c, equal d, equal e, equal f⟩

end Transform

/-! ## Curves -/

namespace Curve

/-- The kinds of curves. -/
inductive Kind
  | line
  | quadratic
  | cubic
  | arc
deriving DecidableEq, Repr

variable {α : Type}

def kind : Curve α → Kind
  | .line .. => .line
  | .quadratic .. => .quadratic
  | .cubic .. => .cubic
  | .arc _ => .arc

variable [Scalar α]

/-- The second curve is the first one mapped by `m`: of its kind, with mapped ends, and at every
parameter its sample is the mapped sample. -/
structure IsImage (m : Point α → Point α) (curve image : Curve α) : Prop where
  kind : image.kind = curve.kind
  start : image.start = m curve.start
  finish : image.finish = m curve.finish
  point (t : α) : image.point t = m (curve.point t)

namespace IsImage

variable {m n : Point α → Point α} {curve image last : Curve α}

theorem refl (curve : Curve α) : IsImage id curve curve := ⟨rfl, rfl, rfl, fun _ => rfl⟩

theorem comp (first : IsImage m curve image) (second : IsImage n image last) :
    IsImage (n ∘ m) curve last where
  kind := second.kind.trans first.kind
  start := second.start.trans (congrArg n first.start)
  finish := second.finish.trans (congrArg n first.finish)
  point t := (second.point t).trans (congrArg n (first.point t))

/-- A map that another one undoes on points takes the image back to the curve. -/
theorem undo (h : IsImage m curve image) (inverse : ∀ p, n (m p) = p) : IsImage n image curve where
  kind := h.kind.symm
  start := by rw [h.start, inverse]
  finish := by rw [h.finish, inverse]
  point t := by rw [h.point, inverse]

/-- Two images of one curve, of which the second was mapped once more. -/
theorem between (first : IsImage m curve image) (second : IsImage (n ∘ m) curve last) :
    IsImage n image last where
  kind := second.kind.trans first.kind.symm
  start := second.start.trans (congrArg n first.start.symm)
  finish := second.finish.trans (congrArg n first.finish.symm)
  point t := (second.point t).trans (congrArg n (first.point t).symm)

end IsImage

theorem kind_transformed (t : Transform α) (curve : Curve α) :
    (curve.transformed t).kind = curve.kind := by
  cases curve <;> rfl

variable [ExactArithmetic α]

/-- An arc does not move its points: the map it carries does, when it is sampled. -/
theorem point_transformed (t : Transform α) (curve : Curve α) (u : α) :
    (curve.transformed t).point u = t.apply (curve.point u) := by
  cases curve with
  | line p q => exact (t.apply_lerp p q _).symm
  | quadratic p c q => exact (t.apply_quadraticPoint _ p c q).symm
  | cubic p c d q => exact (t.apply_cubicPoint _ p c d q).symm
  | arc a => exact t.apply_compose a.transform _

theorem isImage_transformed (t : Transform α) (curve : Curve α) :
    IsImage t.apply curve (curve.transformed t) where
  kind := curve.kind_transformed t
  start := by
    cases curve with
    | arc a => exact t.apply_compose a.transform a.start
    | _ => rfl
  finish := by
    cases curve with
    | arc a => exact t.apply_compose a.transform a.finish
    | _ => rfl
  point := curve.point_transformed t

/-- The transforms act on a point in the order in which they act on the curve. -/
theorem isImage_foldl_transformed (chain : List (Transform α)) (curve : Curve α) :
    IsImage (fun p => chain.foldl (fun q t => t.apply q) p) curve
      (chain.foldl (fun c t => c.transformed t) curve) := by
  induction chain generalizing curve with
  | nil => exact .refl curve
  | cons t chain ih => exact (curve.isImage_transformed t).comp (ih (curve.transformed t))

end Curve
end LaserCut
