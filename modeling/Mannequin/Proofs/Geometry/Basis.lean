import Mannequin.Proofs.Geometry.Turning

/-!
# Recovering a rotation

The vectors that a rotation sends the axes to determine the products of the components of its
quaternion, and so the quaternion up to its sign. One component is taken as the pivot: its
square gives its size, and its products with the others give these. Any component would do that
is not zero; the one that is taken has at least the size of one half, so nothing is divided by
zero, whatever the vectors are.
-/

namespace Mannequin

attribute [local instance] instOfNatAtLeastTwo

/-- Three vectors of length one at right angles to each other, in the order of the axes. -/
structure RightHanded (x y z : Vec3 ℝ) : Prop where
  unit_x : x.dot x = 1
  unit_y : y.dot y = 1
  unit_z : z.dot z = 1
  right_xy : x.dot y = 0
  right_yz : y.dot z = 0
  right_zx : z.dot x = 0
  handed : x.cross y = z

/-- Two vectors of length one at a right angle are completed by their product. -/
theorem RightHanded.of_cross {x z : Vec3 ℝ} (hx : x.dot x = 1) (hz : z.dot z = 1)
    (hzx : z.dot x = 0) : RightHanded x (z.cross x) z := by
  simp only [Vec3.dot] at hx hz hzx
  constructor
  case handed => ext <;> (simp only [Vec3.cross]; grind)
  all_goals
    simp only [Vec3.dot, Vec3.cross]
    grind

namespace Quat

variable {x y z : Vec3 ℝ} {q : Quat ℝ}

/-- The components, the scalar part first. -/
def component (q : Quat ℝ) : Fin 4 → ℝ
  | 0 => q.w
  | 1 => q.x
  | 2 => q.y
  | 3 => q.z

/-- Four times the products of the components of a rotation, by the vectors that it sends the
axes to. -/
def products (x y z : Vec3 ℝ) : Fin 4 → Fin 4 → ℝ
  | 0, 0 => 1 + x.x + y.y + z.z
  | 1, 1 => 1 + x.x - y.y - z.z
  | 2, 2 => 1 + y.y - x.x - z.z
  | 3, 3 => 1 + z.z - x.x - y.y
  | 0, 1 | 1, 0 => y.z - z.y
  | 0, 2 | 2, 0 => z.x - x.z
  | 0, 3 | 3, 0 => x.y - y.x
  | 1, 2 | 2, 1 => y.x + x.y
  | 1, 3 | 3, 1 => z.x + x.z
  | 2, 3 | 3, 2 => z.y + y.z

/-- The products of the components are what the vectors say. -/
def Recovers (q : Quat ℝ) (x y z : Vec3 ℝ) : Prop :=
  ∀ j k, q.component j * q.component k = products x y z j k / 4

namespace Recovers

theorem square (h : Recovers q x y z) : q.square = 1 := by
  have hw : q.w * q.w = (1 + x.x + y.y + z.z) / 4 := h 0 0
  have hx : q.x * q.x = (1 + x.x - y.y - z.z) / 4 := h 1 1
  have hy : q.y * q.y = (1 + y.y - x.x - z.z) / 4 := h 2 2
  have hz : q.z * q.z = (1 + z.z - x.x - y.y) / 4 := h 3 3
  rw [Quat.square, hw, hx, hy, hz]
  ring

/-- What the products say is that the axes are sent to the vectors. -/
theorem rotate (h : Recovers q x y z) :
    q.rotate ⟨1, 0, 0⟩ = x ∧ q.rotate ⟨0, 1, 0⟩ = y ∧ q.rotate ⟨0, 0, 1⟩ = z := by
  have hwx : q.w * q.x = (y.z - z.y) / 4 := h 0 1
  have hwy : q.w * q.y = (z.x - x.z) / 4 := h 0 2
  have hwz : q.w * q.z = (x.y - y.x) / 4 := h 0 3
  have hxx : q.x * q.x = (1 + x.x - y.y - z.z) / 4 := h 1 1
  have hxy : q.x * q.y = (y.x + x.y) / 4 := h 1 2
  have hxz : q.x * q.z = (z.x + x.z) / 4 := h 1 3
  have hyy : q.y * q.y = (1 + y.y - x.x - z.z) / 4 := h 2 2
  have hyz : q.y * q.z = (z.y + y.z) / 4 := h 2 3
  have hzz : q.z * q.z = (1 + z.z - x.x - y.y) / 4 := h 3 3
  refine ⟨?_, ?_, ?_⟩ <;> ext <;> simp only [Quat.rotate, Vec3.cross, Vec3.scale, Vec3.add_x,
    Vec3.add_y, Vec3.add_z, Exact.ofNat_eq, Nat.cast_ofNat] <;> linarith

end Recovers

/-- The products are those of one quaternion: each row is a multiple of any other. This is where
the right angles are used, and that the three vectors are not turned inside out. -/
theorem products_mul (h : RightHanded x y z) (i j k : Fin 4) :
    products x y z i j * products x y z i k = products x y z i i * products x y z j k := by
  obtain ⟨hx, hy, hz, hxy, hyz, hzx, hhanded⟩ := h
  rw [Vec3.cross, Vec3.ext_iff] at hhanded
  simp only [Vec3.dot] at hx hy hz hxy hyz hzx hhanded
  fin_cases i <;> fin_cases j <;> fin_cases k <;> simp only [products] <;> grind

/-! ### The pivot -/

/-- The component that the others are recovered from. -/
noncomputable def pivot (x y z : Vec3 ℝ) : Fin 4 :=
  if 0 < x.x + y.y + z.z then 0
  else if y.y < x.x ∧ z.z < x.x then 1
  else if z.z < y.y then 2
  else 3

/-- The four squares add up to four, so the largest of them, or the first if it is one at least,
is not less than one. -/
theorem one_le_pivot (x y z : Vec3 ℝ) :
    1 ≤ products x y z (pivot x y z) (pivot x y z) := by
  unfold pivot
  split
  · change 1 ≤ 1 + x.x + y.y + z.z
    linarith
  · split
    · change 1 ≤ 1 + x.x - y.y - z.z
      linarith
    · split
      · change 1 ≤ 1 + y.y - x.x - z.z
        grind
      · change 1 ≤ 1 + z.z - x.x - y.y
        grind

/-- The quaternion with a component recovered from its square and the others from their products
with it. -/
noncomputable def recovered (x y z : Vec3 ℝ) (i : Fin 4) : Quat ℝ :=
  let s := √(products x y z i i) * (2 : ℕ)
  ⟨products x y z i 0 / s, products x y z i 1 / s, products x y z i 2 / s, products x y z i 3 / s⟩

theorem component_recovered (x y z : Vec3 ℝ) (i j : Fin 4) :
    (recovered x y z i).component j = products x y z i j / (√(products x y z i i) * 2) := by
  rw [← Nat.cast_two]
  fin_cases j <;> rfl

/-- From any component that is not zero the same products are recovered. -/
theorem recovers_recovered (h : RightHanded x y z) {i : Fin 4} (hi : 0 < products x y z i i) :
    Recovers (recovered x y z i) x y z := by
  intro j k
  have hpos := Real.sqrt_pos.mpr hi
  have hproducts := products_mul h i j k
  rw [component_recovered, component_recovered]
  field_simp
  rw [hproducts, Real.sq_sqrt hi.le]
  ring

/-- The pivot itself is computed from its root and not by a division. -/
theorem quarter_mul_root {k : ℝ} (hk : 1 ≤ k) :
    0.25 * (√k * (2 : ℕ)) = k / (√k * (2 : ℕ)) := by
  have hpos : 0 < √k := Real.sqrt_pos.mpr (lt_of_lt_of_le one_pos hk)
  have hroot : √k ^ 2 = k := Real.sq_sqrt (le_trans zero_le_one hk)
  rw [Nat.cast_two]
  field_simp
  rw [hroot]
  ring

/-- A basis gives the quaternion that is recovered from the pivot. -/
theorem ofBasis_eq (x y z : Vec3 ℝ) :
    ofBasis x y z = (recovered x y z (pivot x y z)).normalize := by
  have hquarter : @OfScientific.ofScientific ℝ Scalar.instOfScientific 25 true 2 = 0.25 := by
    rw [Exact.ofScientific_eq]
    norm_num
  have hpivot := one_le_pivot x y z
  have hroot := quarter_mul_root hpivot
  have htraced : x.x + y.y + z.z + 1 = 1 + x.x + y.y + z.z := by ring
  simp only [ofBasis, Exact.ofNat_eq, Nat.cast_zero, Nat.cast_one, hquarter, htraced]
  congr 1
  simp only [pivot] at hroot ⊢
  by_cases htrace : 0 < x.x + y.y + z.z
  · simp only [htrace, if_true] at hroot ⊢
    exact Quat.ext hroot rfl rfl rfl
  · by_cases hx : y.y < x.x ∧ z.z < x.x
    · simp only [htrace, hx, and_self, if_true, if_false] at hroot ⊢
      exact Quat.ext rfl hroot rfl rfl
    · by_cases hy : z.z < y.y
      · simp only [htrace, hx, hy, if_true, if_false] at hroot ⊢
        exact Quat.ext rfl rfl hroot rfl
      · simp only [htrace, hx, hy, if_false] at hroot ⊢
        exact Quat.ext rfl rfl rfl hroot

/-- A basis gives a rotation that sends the axes to it. -/
theorem recovers_ofBasis (h : RightHanded x y z) : Recovers (ofBasis x y z) x y z := by
  have hrecovered := recovers_recovered h (lt_of_lt_of_le one_pos (one_le_pivot x y z))
  rw [ofBasis_eq, normalize_of_square hrecovered.square]
  exact hrecovered

end Quat

end Mannequin
