import Mathlib.Order.Interval.Set.LinearOrder
import Mathlib.Algebra.Order.Ring.Int
import Mathlib.Algebra.Ring.Divisibility.Basic

/-!
Windows on a time line cut into slots of one width.

The slots of a window are the grid slots `[k, k + w)` it meets. `no_common_slot_iff` says
what comparing slots instead of windows amounts to: two windows have no slot in common
exactly when a boundary of the grid lies between them, so windows that are apart but end
and start within one slot are taken to meet.
-/

namespace MibServer.Lib

/-! ### Windows -/

section Windows

variable {α : Type*} [LinearOrder α] {a b c d : α}

/-- The windows `[a, b)` and `[c, d)` have an instant in common. -/
def Meet (a b c d : α) : Prop :=
  (Set.Ico a b ∩ Set.Ico c d).Nonempty

theorem Meet.symm (h : Meet a b c d) : Meet c d a b := by
  unfold Meet at *
  rwa [Set.inter_comm]

theorem meet_iff (hab : a < b) (hcd : c < d) : Meet a b c d ↔ a < d ∧ c < b := by
  unfold Meet
  rw [Set.Ico_inter_Ico, Set.nonempty_Ico, max_lt_iff, lt_min_iff, lt_min_iff]
  constructor
  · rintro ⟨⟨-, had⟩, hcb, -⟩
    exact ⟨had, hcb⟩
  · rintro ⟨had, hcb⟩
    exact ⟨⟨hab, had⟩, hcb, hcd⟩

end Windows

/-! ### Slots -/

variable {w a b c d k : Int}

/-- The slot of width `w` that starts at `k` is one the window `[a, b)` meets. -/
def IsSlot (w a b k : Int) : Prop :=
  w ∣ k ∧ Meet k (k + w) a b

/-- A boundary of the grid lies between the windows `[a, b)` and `[c, d)`. -/
def Parted (w a b c d : Int) : Prop :=
  ∃ m, w ∣ m ∧ (b ≤ m ∧ m ≤ c ∨ d ≤ m ∧ m ≤ a)

theorem Parted.symm (h : Parted w a b c d) : Parted w c d a b := by
  obtain ⟨m, hm, hbetween⟩ := h
  exact ⟨m, hm, hbetween.symm⟩

theorem isSlot_iff (hw : 0 < w) (hab : a < b) : IsSlot w a b k ↔ w ∣ k ∧ a < k + w ∧ k < b := by
  unfold IsSlot
  rw [meet_iff (by omega) hab]
  exact and_congr_right fun _ => and_comm

/-- Each instant of a window lies in one of its slots. -/
theorem isSlot_of_instant (hw : 0 < w) {t : Int} (ha : a ≤ t) (hb : t < b) :
    IsSlot w a b (t / w * w) := by
  have hle : t / w * w ≤ t := Int.ediv_mul_le t hw.ne'
  have hlt : t < t / w * w + w := by
    have hnext := Int.lt_ediv_add_one_mul_self t hw
    rwa [add_mul, one_mul] at hnext
  constructor
  · exact dvd_mul_left w (t / w)
  · exact ⟨t, ⟨hle, hlt⟩, ha, hb⟩

/-- Windows that meet have a slot in common. -/
theorem Meet.common_slot (hw : 0 < w) (h : Meet a b c d) : ∃ k, IsSlot w a b k ∧ IsSlot w c d k := by
  obtain ⟨t, ⟨hat, htb⟩, hct, htd⟩ := h
  exact ⟨t / w * w, isSlot_of_instant hw hat htb, isSlot_of_instant hw hct htd⟩

/-- Of two boundaries, the earlier one is a slot's width before the later. -/
theorem add_le_of_dvd {m : Int} (hk : w ∣ k) (hm : w ∣ m) (hlt : k < m) : k + w ≤ m := by
  have hgap := Int.le_of_dvd (by omega) (Int.dvd_sub hm hk)
  omega

/-- **Comparing slots**: windows have no slot in common exactly when a boundary of the grid
lies between them. -/
theorem no_common_slot_iff (hw : 0 < w) (hab : a < b) (hcd : c < d) :
    (∀ k, IsSlot w a b k → ¬ IsSlot w c d k) ↔ Parted w a b c d := by
  constructor
  · intro hnone
    by_contra hparted
    -- The later of the two first slots is a slot of both windows.
    have hfirst : ∀ {a b c d : Int}, a < b → c < d → a ≤ c → ¬ Parted w a b c d →
        IsSlot w a b (c / w * w) := by
      intro a b c d hab hcd hac hparted
      have hboundary : w ∣ c / w * w := dvd_mul_left w (c / w)
      have hle : c / w * w ≤ c := Int.ediv_mul_le c hw.ne'
      have hnext := (isSlot_iff hw hcd).mp (isSlot_of_instant hw (le_refl c) hcd)
      rw [isSlot_iff hw hab]
      refine ⟨hboundary, by omega, ?_⟩
      by_contra hbefore
      exact hparted ⟨c / w * w, hboundary, Or.inl ⟨by omega, hle⟩⟩
    rcases le_total a c with hac | hca
    · exact hnone _ (hfirst hab hcd hac hparted) (isSlot_of_instant hw (le_refl c) hcd)
    · exact hnone _ (isSlot_of_instant hw (le_refl a) hab)
        (hfirst hcd hab hca fun h => hparted h.symm)
  · rintro ⟨m, hm, hbetween⟩ k hk hk'
    obtain ⟨hdvd, hak, hkb⟩ := (isSlot_iff hw hab).mp hk
    obtain ⟨-, hck, hkd⟩ := (isSlot_iff hw hcd).mp hk'
    rcases hbetween with ⟨hbm, hmc⟩ | ⟨hdm, hma⟩
    · have hstep := add_le_of_dvd hdvd hm (by omega)
      omega
    · have hstep := add_le_of_dvd hdvd hm (by omega)
      omega

end MibServer.Lib
