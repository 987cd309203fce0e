import Mathlib.Order.CompletePartialOrder
import Mathlib.Order.Interval.Set.Basic
import Mathlib.Data.Set.Lattice

/-! Lists of half-open spans of a linear order. A span is any value with a
lower and an upper end, so the same facts serve lists of memory blocks and
lists of address ranges. Nothing here refers to a particular allocator. -/
namespace Spans

variable {α β : Type*} [LinearOrder α] (lo hi : β → α)

/-- The points that lie in at least one span of the list. -/
def covered (l : List β) : Set α := {x | ∃ b ∈ l, x ∈ Set.Ico (lo b) (hi b)}

/-- Every span is non-empty, and each ends strictly below the next one: the
list is strictly ascending and no two spans overlap or touch. -/
structure Ascending (l : List β) : Prop where
  nonempty : ∀ b ∈ l, lo b < hi b
  gaps : l.Pairwise (fun a b => hi a < lo b)

variable {lo hi}

@[simp] theorem covered_nil : covered lo hi [] = ∅ := by
  ext x
  simp [covered]

variable {b : β} {l k : List β} {x : α}

theorem mem_covered_cons :
    x ∈ covered lo hi (b :: l) ↔ x ∈ Set.Ico (lo b) (hi b) ∨ x ∈ covered lo hi l := by
  simp [covered]

theorem covered_cons (b : β) (l : List β) :
    covered lo hi (b :: l) = Set.Ico (lo b) (hi b) ∪ covered lo hi l :=
  Set.ext fun _ => mem_covered_cons

theorem ascending_nil : Ascending lo hi [] := ⟨by simp, List.Pairwise.nil⟩

theorem ascending_cons :
    Ascending lo hi (b :: l) ↔
      lo b < hi b ∧ (∀ c ∈ l, hi b < lo c) ∧ Ascending lo hi l := by
  constructor
  · intro h
    have hGaps := List.pairwise_cons.mp h.gaps
    exact ⟨h.nonempty b (by simp), hGaps.1, fun c hc => h.nonempty c (by simp [hc]), hGaps.2⟩
  · rintro ⟨hb, hGaps, hl⟩
    refine ⟨?_, List.pairwise_cons.mpr ⟨hGaps, hl.gaps⟩⟩
    intro c hc
    rcases List.mem_cons.mp hc with rfl | hc
    · exact hb
    · exact hl.nonempty c hc

theorem Ascending.tail {b : β} {l : List β} (h : Ascending lo hi (b :: l)) :
    Ascending lo hi l :=
  (ascending_cons.mp h).2.2

/-- Everything covered behind the first span lies strictly above its end. -/
theorem Ascending.lt_of_mem_tail (h : Ascending lo hi (b :: l)) (hx : x ∈ covered lo hi l) :
    hi b < x := by
  obtain ⟨c, hc, hxc⟩ := hx
  exact lt_of_lt_of_le ((ascending_cons.mp h).2.1 c hc) hxc.1

/-- Take one span out of an ascending list: the rest stays ascending, covers
everything else, and keeps its distance from the removed span. -/
theorem Ascending.remove {pre post : List β} (h : Ascending lo hi (pre ++ b :: post)) :
    Ascending lo hi (pre ++ post) ∧
    (∀ c ∈ pre ++ post, hi b < lo c ∨ hi c < lo b) ∧
    covered lo hi (pre ++ b :: post) = Set.Ico (lo b) (hi b) ∪ covered lo hi (pre ++ post) := by
  obtain ⟨hPre, hPost, hCross⟩ := List.pairwise_append.mp h.gaps
  obtain ⟨hAfter, hPost⟩ := List.pairwise_cons.mp hPost
  refine ⟨⟨?_, ?_⟩, ?_, ?_⟩
  · intro c hc
    exact h.nonempty c (by simp only [List.mem_append, List.mem_cons] at hc ⊢; tauto)
  · exact List.pairwise_append.mpr
      ⟨hPre, hPost, fun a ha c hc => hCross a ha c (List.mem_cons_of_mem _ hc)⟩
  · grind
  · ext x
    simp only [covered, List.mem_append, List.mem_cons, Set.mem_ofPred_eq, Set.mem_union]
    constructor
    · grind
    · grind

/-- Two non-empty spans without a common point do not overlap. -/
theorem apart_of_disjoint {a b c d : α} (hab : a < b) (hcd : c < d)
    (h : Disjoint (Set.Ico a b) (Set.Ico c d)) : b ≤ c ∨ d ≤ a := by
  by_contra hApart
  rw [not_or, not_le, not_le] at hApart
  exact Set.disjoint_left.mp h ⟨le_max_left a c, max_lt hab hApart.1⟩
    ⟨le_max_right a c, max_lt hApart.2 hcd⟩

theorem Ascending.lo_mem (h : Ascending lo hi (b :: l)) : lo b ∈ covered lo hi (b :: l) :=
  mem_covered_cons.mpr (.inl ⟨le_rfl, (ascending_cons.mp h).1⟩)

/-- The points of the first span are the first ones. -/
theorem Ascending.lo_le_of_mem (h : Ascending lo hi (b :: l)) (hx : x ∈ covered lo hi (b :: l)) :
    lo b ≤ x := by
  rcases mem_covered_cons.mp hx with hHere | hTail
  · exact hHere.1
  · exact ((ascending_cons.mp h).1.trans (h.lt_of_mem_tail hTail)).le

theorem Ascending.hi_not_mem (h : Ascending lo hi (b :: l)) : hi b ∉ covered lo hi (b :: l) := by
  intro hMem
  rcases mem_covered_cons.mp hMem with hHere | hTail
  · exact lt_irrefl _ hHere.2
  · exact lt_irrefl _ (h.lt_of_mem_tail hTail)

/-- No span of the list begins where another one ends. -/
theorem Ascending.hi_not_mem_of_mem (h : Ascending lo hi l) (hb : b ∈ l) :
    hi b ∉ covered lo hi l := by
  induction l with
  | nil => simp at hb
  | cons c l ih =>
    rcases List.mem_cons.mp hb with rfl | hTail
    · exact h.hi_not_mem
    · intro hMem
      have hAbove : hi c < hi b :=
        ((ascending_cons.mp h).2.1 b hTail).trans (h.nonempty b hb)
      rcases mem_covered_cons.mp hMem with hHere | hRest
      · exact lt_asymm hAbove hHere.2
      · exact ih h.tail hTail hRest

/-- A run of covered points lies in a single span, since no two spans touch. -/
theorem Ascending.exists_span_of_subset (h : Ascending lo hi l) {a b : α} (hab : a < b)
    (hRun : Set.Ico a b ⊆ covered lo hi l) :
    ∃ c ∈ l, lo c ≤ a ∧ b ≤ hi c := by
  obtain ⟨c, hc, hLow, hHigh⟩ := hRun ⟨le_rfl, hab⟩
  refine ⟨c, hc, hLow, le_of_not_gt fun hShort => ?_⟩
  exact h.hi_not_mem_of_mem hc (hRun ⟨hHigh.le, hShort⟩)

/-! #### Spans at any distance -/

/-- A relation that holds of the end of a span and the start of a later one:
they do not overlap, and more distance does no harm. -/
structure IsGap (gap : α → α → Prop) : Prop where
  le : ∀ {a b}, gap a b → a ≤ b
  of_lt : ∀ {a b}, a < b → gap a b
  mono : ∀ {a b c d}, a ≤ b → gap b c → c ≤ d → gap a d

theorem isGap_lt : IsGap (fun a b : α => a < b) :=
  ⟨le_of_lt, id, fun hab hbc hcd => (hab.trans_lt hbc).trans_le hcd⟩

theorem isGap_le : IsGap (fun a b : α => a ≤ b) :=
  ⟨id, le_of_lt, fun hab hbc hcd => (hab.trans hbc).trans hcd⟩

variable (lo hi) in
/-- Every span is non-empty and keeps the distance to the later ones. -/
structure Spaced (gap : α → α → Prop) (l : List β) : Prop where
  nonempty : ∀ b ∈ l, lo b < hi b
  gaps : l.Pairwise (fun a b => gap (hi a) (lo b))

variable {gap : α → α → Prop}

theorem ascending_iff_spaced : Ascending lo hi l ↔ Spaced lo hi (· < ·) l :=
  ⟨fun h => ⟨h.nonempty, h.gaps⟩, fun h => ⟨h.nonempty, h.gaps⟩⟩

theorem spaced_nil : Spaced lo hi gap [] := ⟨by simp, List.Pairwise.nil⟩

theorem Spaced.tail {b : β} {l : List β} (h : Spaced lo hi gap (b :: l)) : Spaced lo hi gap l :=
  ⟨fun c hc => h.nonempty c (List.mem_cons_of_mem b hc), (List.pairwise_cons.mp h.gaps).2⟩

/-- Everything covered behind the first span keeps the distance to its end. -/
theorem Spaced.gap_of_mem_tail (hGap : IsGap gap) (h : Spaced lo hi gap (b :: l))
    (hx : x ∈ covered lo hi l) : gap (hi b) x := by
  obtain ⟨c, hc, hxc⟩ := hx
  exact hGap.mono le_rfl ((List.pairwise_cons.mp h.gaps).1 c hc) hxc.1

theorem Spaced.append (hl : Spaced lo hi gap l) (hk : Spaced lo hi gap k)
    (hCross : ∀ b ∈ l, ∀ c ∈ k, gap (hi b) (lo c)) : Spaced lo hi gap (l ++ k) := by
  refine ⟨?_, List.pairwise_append.mpr ⟨hl.gaps, hk.gaps, hCross⟩⟩
  intro b hb
  rcases List.mem_append.mp hb with hb | hb
  · exact hl.nonempty b hb
  · exact hk.nonempty b hb

theorem Spaced.singleton (hb : lo b < hi b) : Spaced lo hi gap [b] :=
  ⟨by simpa using hb, List.pairwise_singleton _ b⟩

theorem covered_append (l k : List β) :
    covered lo hi (l ++ k) = covered lo hi l ∪ covered lo hi k := by
  induction l with
  | nil => simp
  | cons b l ih => rw [List.cons_append, covered_cons, ih, covered_cons, Set.union_assoc]

/-- The first spans of two lists that cover the same points compare. -/
theorem Ascending.head_le {c : β} (hl : Ascending lo hi (b :: l)) (hk : Ascending lo hi (c :: k))
    (hEq : covered lo hi (b :: l) = covered lo hi (c :: k)) :
    lo b ≤ lo c ∧ hi c ≤ hi b := by
  have hLo : lo c ≤ lo b := hk.lo_le_of_mem (hEq ▸ hl.lo_mem)
  refine ⟨hl.lo_le_of_mem (hEq ▸ hk.lo_mem), le_of_not_gt fun hLt => hl.hi_not_mem ?_⟩
  rw [hEq]
  exact mem_covered_cons.mpr (.inl ⟨hLo.trans (ascending_cons.mp hl).1.le, hLt⟩)

/-- An ascending list is known by the points that it covers. -/
theorem Ascending.eq_of_covered_eq (hSpan : ∀ b c : β, lo b = lo c → hi b = hi c → b = c)
    (hl : Ascending lo hi l) (hk : Ascending lo hi k) (hEq : covered lo hi l = covered lo hi k) :
    l = k := by
  induction l generalizing k with
  | nil =>
    cases k with
    | nil => rfl
    | cons c k =>
      have hMem := hk.lo_mem
      simp [← hEq] at hMem
  | cons b l ih =>
    cases k with
    | nil =>
      have hMem := hl.lo_mem
      simp [hEq] at hMem
    | cons c k =>
      obtain ⟨hLo, hHi⟩ := hl.head_le hk hEq
      obtain ⟨hLo', hHi'⟩ := hk.head_le hl hEq.symm
      obtain rfl := hSpan b c (le_antisymm hLo hLo') (le_antisymm hHi' hHi)
      refine congrArg (b :: ·) (ih hl.tail hk.tail (Set.ext fun x => ⟨fun hx => ?_, fun hx => ?_⟩))
      · refine (mem_covered_cons.mp (hEq ▸ mem_covered_cons.mpr (.inr hx))).resolve_left ?_
        exact fun hHere => lt_irrefl _ (hHere.2.trans (hl.lt_of_mem_tail hx))
      · refine (mem_covered_cons.mp (hEq ▸ mem_covered_cons.mpr (.inr hx))).resolve_left ?_
        exact fun hHere => lt_irrefl _ (hHere.2.trans (hk.lt_of_mem_tail hx))

end Spans
