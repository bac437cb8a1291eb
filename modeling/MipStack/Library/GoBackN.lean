import Mathlib.Order.Basic
import Mathlib.Tactic.Common

/-! Go-back-N over a channel that may lose, repeat and reorder what it carries.
The receiver takes items in order and answers with the number of the next one. -/
namespace GoBackN

variable {α : Type*}

/-- Nothing is taken off the channel: `packages` and `answers` hold all that was
ever sent. `held` is what the receiver took. -/
structure State (α : Type*) where
  base : ℕ
  held : List α
  packages : List (ℕ × α)
  answers : List ℕ

/-- `content` tells which item has which number. -/
inductive Step (content : ℕ → α → Prop) : State α → State α → Prop where
  | send (s : State α) (packages : List (ℕ × α)) (h : ∀ p ∈ packages, content p.1 p.2) :
      Step content s { s with packages := s.packages ++ packages }
  | accept (s : State α) (x : α) (h : (s.held.length, x) ∈ s.packages) :
      Step content s { s with
        held := s.held ++ [x]
        answers := s.answers ++ [s.held.length + 1] }
  | refuse (s : State α) :
      Step content s { s with answers := s.answers ++ [s.held.length] }
  | hear (s : State α) (answer : ℕ) (h : answer ∈ s.answers) :
      Step content s { s with base := max s.base answer }

/-- No number that is known of claims more than the receiver holds. -/
structure Sound (content : ℕ → α → Prop) (s : State α) : Prop where
  packages : ∀ p ∈ s.packages, content p.1 p.2
  held : ∀ i x, s.held[i]? = some x → content i x
  answers : ∀ answer ∈ s.answers, answer ≤ s.held.length
  base : s.base ≤ s.held.length

variable {content : ℕ → α → Prop} {s t : State α}

theorem Sound.start : Sound content ⟨0, [], [], []⟩ :=
  ⟨by simp, by simp, by simp, Nat.le_refl 0⟩

/-- Packages carry their own numbers' content and answers count what is held. No step breaks this:
nothing is asked of the order in which the channel delivers, or how often. -/
theorem Sound.step (h : Sound content s) (step : Step content s t) : Sound content t := by
  cases step with
  | send packages hPackages =>
      refine ⟨?_, h.held, h.answers, h.base⟩
      intro p hMem
      exact (List.mem_append.mp hMem).elim (h.packages p) (hPackages p)
  | accept x hMem =>
      have hLength : (s.held ++ [x]).length = s.held.length + 1 := by simp
      refine ⟨h.packages, ?_, ?_, ?_⟩
      · intro i y hGet
        rcases Nat.lt_trichotomy i s.held.length with hOld | rfl | hBeyond
        · rw [List.getElem?_append_left hOld] at hGet
          exact h.held i y hGet
        · rw [List.getElem?_concat_length] at hGet
          obtain rfl := Option.some.inj hGet
          exact h.packages _ hMem
        · rw [List.getElem?_eq_none (hLength.trans_le hBeyond)] at hGet
          cases hGet
      · intro answer hAnswer
        rw [hLength]
        rcases List.mem_append.mp hAnswer with hOld | hNew
        · exact Nat.le_succ_of_le (h.answers answer hOld)
        · exact Nat.le_of_eq (List.mem_singleton.mp hNew)
      · exact Nat.le_trans (Nat.le_succ_of_le h.base) (Nat.le_of_eq hLength.symm)
  | refuse =>
      refine ⟨h.packages, h.held, ?_, h.base⟩
      intro answer hAnswer
      rcases List.mem_append.mp hAnswer with hOld | hNew
      · exact h.answers answer hOld
      · exact Nat.le_of_eq (List.mem_singleton.mp hNew)
  | hear answer hMem =>
      exact ⟨h.packages, h.held, h.answers, Nat.max_le.mpr ⟨h.base, h.answers answer hMem⟩⟩

/-- Once the receiver holds so many items, it holds the item of every lower number. -/
theorem Sound.exists_held (h : Sound content s) {i : ℕ} (hi : i < s.held.length) :
    ∃ x, s.held[i]? = some x ∧ content i x :=
  ⟨_, List.getElem?_eq_getElem hi, h.held i _ (List.getElem?_eq_getElem hi)⟩

/-- The receiver never holds more items than there are numbers in use. -/
theorem Sound.length_le (h : Sound content s) {limit : ℕ}
    (hLimit : ∀ i x, content i x → i < limit) : s.held.length ≤ limit := by
  rcases Nat.eq_zero_or_pos s.held.length with hZero | hPos
  · exact hZero ▸ Nat.zero_le limit
  · have hLast : s.held.length - 1 < s.held.length := by omega
    obtain ⟨x, -, hContent⟩ := h.exists_held hLast
    have hLt := hLimit _ x hContent
    omega

end GoBackN
