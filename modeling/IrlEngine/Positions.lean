import IrlEngine.Binding
import IrlEngine.Lib.Run
import Mathlib.Tactic.Linarith
import Mathlib.Data.Set.Finite.Lattice
import Mathlib.Algebra.BigOperators.Ring.List

/-!
# Average price and notional of a position

`upsert_position` keeps a running average price and a running notional.  The average is divided
by the absolute net quantity, which is the volume of the fills only while they are all on one
side; the notional is only ever added to.

* `vwap_of_one_side` — priced fills on one side: the average is the volume-weighted price, the
  notional its product with the net quantity;
* `entry_price_within` — the fills after which the average lies within the prices of the fills;
* `notional_exposure_iff` — notional and net quantity stay related exactly until a fill closes
  the position.
-/

namespace IrlEngine

/-! ## Runs of fills -/

/-- One fill after the other; a list of fills is a run. -/
def ledgerStep (positions : List PositionRow) (f : Fill) : Option (List PositionRow) :=
  some (upsertPosition positions f)

/-- The table after a list of fills. -/
def upsertPositions (positions : List PositionRow) (fs : List Fill) : List PositionRow :=
  fs.foldl upsertPosition positions

/-- The row of a key. -/
def positionOf (positions : List PositionRow) (key : PositionKey) : Option PositionRow :=
  Table.rowOf PositionRow.key positions key

theorem run_ledgerStep (positions : List PositionRow) (fs : List Fill) :
    Run.run ledgerStep positions fs = some (upsertPositions positions fs) := by
  induction fs generalizing positions with
  | nil => rfl
  | cons f fs ih => exact (Run.run_cons rfl fs).trans (ih _)

theorem upsertPositions_append (positions : List PositionRow) (fs gs : List Fill) :
    upsertPositions positions (fs ++ gs) = upsertPositions (upsertPositions positions fs) gs :=
  List.foldl_append

theorem positionOf_upsertPosition {f : Fill} {key : PositionKey} (hf : f.key = key)
    (positions : List PositionRow) :
    positionOf (upsertPosition positions f) key = some (f.applyTo (positionOf positions key)) := by
  unfold positionOf
  rw [rowOf_upsertPosition, if_pos hf]

/-- The rows of the other keys stay as they are. -/
theorem filter_upsertPosition {f : Fill} {key : PositionKey} (hf : f.key = key)
    (positions : List PositionRow) :
    (upsertPosition positions f).filter (fun p => p.key ≠ key)
      = positions.filter fun p => p.key ≠ key := by
  subst hf
  unfold upsertPosition
  split
  · refine Table.filter_updateWhere (fun p hp => ?_) positions
    have hkey : p.key = f.key := of_decide_eq_true hp
    simp [hkey, PositionRow.add]
  · simp [List.filter_append, Fill.row]

theorem filter_upsertPositions {fs : List Fill} {key : PositionKey} (hfs : ∀ f ∈ fs, f.key = key)
    (positions : List PositionRow) :
    (upsertPositions positions fs).filter (fun p => p.key ≠ key)
      = positions.filter fun p => p.key ≠ key := by
  induction fs generalizing positions with
  | nil => rfl
  | cons f fs ih =>
    refine (ih (fun g hg => hfs g (by simp [hg])) _).trans ?_
    exact filter_upsertPosition (hfs f (by simp)) positions

/-- The fills of one key, the last of them applied to the row that the others have made. -/
theorem positionOf_concat {fs : List Fill} {f : Fill} {key : PositionKey}
    (hfs : ∀ g ∈ fs ++ [f], g.key = key) (positions : List PositionRow) :
    positionOf (upsertPositions positions (fs ++ [f])) key
      = some (f.applyTo (positionOf (upsertPositions positions fs) key)) := by
  rw [upsertPositions_append]
  exact positionOf_upsertPosition (hfs f (by simp)) _

/-! ## Fills on one side -/

/-- All fills buy, or all sell. -/
def OneSided (fs : List Fill) : Prop :=
  (∀ f ∈ fs, 0 < f.quantityDelta) ∨ ∀ f ∈ fs, f.quantityDelta < 0

/-- The net quantity that the fills have moved. -/
def netDelta (fs : List Fill) : ℚ := (fs.map Fill.quantityDelta).sum

/-- The number of units that the fills have moved. -/
def volume (fs : List Fill) : ℚ := (fs.map fun f => |f.quantityDelta|).sum

/-- What was paid for them, before the multiplier. -/
def turnover (fs : List Fill) : ℚ :=
  (fs.map fun f => |f.quantityDelta| * f.fillPrice.getD 0).sum

section Sums

variable (fs : List Fill) (f : Fill)

@[simp] theorem netDelta_concat : netDelta (fs ++ [f]) = netDelta fs + f.quantityDelta := by
  simp [netDelta]

@[simp] theorem turnover_concat :
    turnover (fs ++ [f]) = turnover fs + |f.quantityDelta| * f.fillPrice.getD 0 := by
  simp [turnover]

end Sums

theorem OneSided.mono {fs gs : List Fill} (h : OneSided fs) (hsub : ∀ g ∈ gs, g ∈ fs) :
    OneSided gs := by
  rcases h with h | h
  · exact Or.inl fun g hg => h g (hsub g hg)
  · exact Or.inr fun g hg => h g (hsub g hg)

theorem OneSided.of_concat {fs : List Fill} {f : Fill} (h : OneSided (fs ++ [f])) : OneSided fs :=
  h.mono fun _ hg => List.mem_append_left _ hg

/-- On one side nothing is netted. -/
theorem OneSided.abs_netDelta {fs : List Fill} (h : OneSided fs) : |netDelta fs| = volume fs := by
  unfold netDelta volume
  rcases h with h | h
  · have hmap : fs.map (fun f => |f.quantityDelta|) = fs.map Fill.quantityDelta :=
      List.map_congr_left fun f hf => abs_of_pos (h f hf)
    rw [hmap]
    refine abs_of_nonneg (List.sum_nonneg fun d hd => ?_)
    obtain ⟨f, hf, rfl⟩ := List.mem_map.1 hd
    exact (h f hf).le
  · have hmap : fs.map (fun f => |f.quantityDelta|) = (fs.map Fill.quantityDelta).map Neg.neg := by
      rw [List.map_map]
      exact List.map_congr_left fun f hf => abs_of_neg (h f hf)
    have hneg : ((fs.map Fill.quantityDelta).map Neg.neg).sum = -(fs.map Fill.quantityDelta).sum :=
      (List.sum_neg _).symm
    rw [hmap, ← abs_neg, ← hneg]
    refine abs_of_nonneg (List.sum_nonneg fun d hd => ?_)
    obtain ⟨e, he, rfl⟩ := List.mem_map.1 hd
    obtain ⟨f, hf, rfl⟩ := List.mem_map.1 he
    exact neg_nonneg.2 (h f hf).le

theorem OneSided.volume_pos {fs : List Fill} (h : OneSided fs) (hne : fs ≠ []) : 0 < volume fs := by
  refine List.sum_pos _ (fun d hd => ?_) (by simpa using hne)
  obtain ⟨f, hf, rfl⟩ := List.mem_map.1 hd
  rcases h with h | h
  · exact abs_pos.2 (h f hf).ne'
  · exact abs_pos.2 (h f hf).ne

theorem OneSided.netDelta_ne_zero {fs : List Fill} (h : OneSided fs) (hne : fs ≠ []) :
    netDelta fs ≠ 0 := by
  rw [← abs_pos, h.abs_netDelta]
  exact h.volume_pos hne

/-- The average after a priced fill that leaves the position open. -/
theorem averagePrice_add {p : PositionRow} {f : Fill} {price : ℚ}
    (hprice : f.fillPrice = some price) (hmoves : p.netQuantity + f.quantityDelta ≠ 0) :
    (p.add f).averagePrice
      = some ((p.averagePrice.getD 0 * |p.netQuantity| + price * |f.quantityDelta|)
        / |p.netQuantity + f.quantityDelta|) := by
  simp [PositionRow.add, hprice, hmoves]

/-- What priced fills on one side make of a new position. -/
structure Accumulated (fs : List Fill) (p : PositionRow) : Prop where
  netQuantity : p.netQuantity = netDelta fs
  averagePrice : p.averagePrice = some (turnover fs / volume fs)
  notional : ∀ m, (∀ f ∈ fs, f.multiplier = m) → p.notional = turnover fs * m

theorem accumulated_row {f : Fill} (hd : f.quantityDelta ≠ 0) (hp : f.fillPrice.isSome = true) :
    Accumulated [f] f.row := by
  obtain ⟨price, hprice⟩ := Option.isSome_iff_exists.1 hp
  refine ⟨by simp [netDelta, Fill.row], ?_, ?_⟩
  · have habs : |f.quantityDelta| ≠ 0 := abs_ne_zero.2 hd
    simp [turnover, volume, Fill.row, hd, hprice, habs]
  · intro m hm
    simp [turnover, Fill.row, Fill.notional, hprice, hm f (by simp)]

theorem Accumulated.add {fs : List Fill} {f : Fill} {p : PositionRow} (h : Accumulated fs p)
    (hne : fs ≠ []) (hside : OneSided (fs ++ [f])) (hp : f.fillPrice.isSome = true) :
    Accumulated (fs ++ [f]) (p.add f) := by
  obtain ⟨price, hprice⟩ := Option.isSome_iff_exists.1 hp
  have hnet : p.netQuantity + f.quantityDelta = netDelta (fs ++ [f]) := by
    rw [netDelta_concat, h.netQuantity]
  have hmoves : p.netQuantity + f.quantityDelta ≠ 0 := hnet ▸ hside.netDelta_ne_zero (by simp)
  have hvolume : volume fs ≠ 0 := (hside.of_concat.volume_pos hne).ne'
  refine ⟨hnet, ?_, ?_⟩
  · -- the average times the old quantity is what was paid for it
    have hpaid : p.averagePrice.getD 0 * |p.netQuantity| = turnover fs := by
      rw [h.averagePrice, h.netQuantity, hside.of_concat.abs_netDelta, Option.getD_some,
        div_mul_cancel₀ _ hvolume]
    rw [averagePrice_add hprice hmoves, hpaid, hnet, hside.abs_netDelta, turnover_concat, hprice,
      Option.getD_some, mul_comm price]
  · intro m hm
    have hold := h.notional m fun g hg => hm g (by simp [hg])
    have hnew : f.notional = |f.quantityDelta| * price * m := by
      rw [Fill.notional, hprice, hm f (by simp)]
    show p.notional + f.notional = _
    rw [hold, hnew, turnover_concat, hprice, Option.getD_some, add_mul]

theorem exists_accumulated {fs : List Fill} {key : PositionKey} (hne : fs ≠ [])
    (hkey : ∀ f ∈ fs, f.key = key) (hside : OneSided fs)
    (hpriced : ∀ f ∈ fs, f.fillPrice.isSome = true) {positions : List PositionRow}
    (hnew : positionOf positions key = none) :
    ∃ p, positionOf (upsertPositions positions fs) key = some p ∧ Accumulated fs p := by
  induction fs using List.reverseRecOn with
  | nil => exact absurd rfl hne
  | append_singleton fs f ih =>
    have hf : f.fillPrice.isSome = true := hpriced f (by simp)
    rw [positionOf_concat hkey]
    refine ⟨_, rfl, ?_⟩
    by_cases hfs : fs = []
    · subst hfs
      have hrow : positionOf (upsertPositions positions []) key = none := hnew
      rw [hrow]
      refine accumulated_row ?_ hf
      have hd := hside.netDelta_ne_zero (by simp)
      simpa [netDelta] using hd
    · obtain ⟨p, hp, hacc⟩ := ih hfs (fun g hg => hkey g (by simp [hg])) hside.of_concat
        fun g hg => hpriced g (by simp [hg])
      rw [hp]
      exact hacc.add hfs hside hf

/-- **Fills on one side.**  Priced fills of one sign make a new position whose net quantity is
their sum, whose average price is their volume-weighted price and whose notional is what was paid
for them; no divisor on the way is zero, and the rows of other keys stay as they are. -/
theorem vwap_of_one_side (positions : List PositionRow) {key : PositionKey} {fs : List Fill}
    (hnew : positionOf positions key = none) (hne : fs ≠ []) (hkey : ∀ f ∈ fs, f.key = key)
    (hside : OneSided fs) (hpriced : ∀ f ∈ fs, f.fillPrice.isSome = true) :
    (∃ p, positionOf (upsertPositions positions fs) key = some p ∧
      p.netQuantity = (fs.map Fill.quantityDelta).sum ∧
      p.averagePrice = some ((fs.map fun f => |f.quantityDelta| * f.fillPrice.getD 0).sum
        / (fs.map fun f => |f.quantityDelta|).sum) ∧
      (fs.map fun f => |f.quantityDelta|).sum ≠ 0 ∧
      ∀ m, (∀ f ∈ fs, f.multiplier = m) →
        p.notional = (fs.map fun f => |f.quantityDelta| * f.fillPrice.getD 0 * m).sum) ∧
    (∀ before f after p, fs = before ++ f :: after →
      positionOf (upsertPositions positions before) key = some p →
      |p.netQuantity + f.quantityDelta| ≠ 0) ∧
    (upsertPositions positions fs).filter (fun p => p.key ≠ key)
      = positions.filter fun p => p.key ≠ key := by
  obtain ⟨p, hp, hacc⟩ := exists_accumulated hne hkey hside hpriced hnew
  refine ⟨⟨p, hp, hacc.netQuantity, hacc.averagePrice, (hside.volume_pos hne).ne', ?_⟩, ?_,
    filter_upsertPositions hkey positions⟩
  · intro m hm
    rw [hacc.notional m hm, turnover, List.sum_map_mul_right]
  · rintro before f after p rfl hrow
    have hsub : ∀ g ∈ before ++ [f], g ∈ before ++ f :: after := by
      intro g hg
      rcases List.mem_append.1 hg with hg | hg
      · exact List.mem_append_left _ hg
      · rw [List.mem_singleton.1 hg]
        simp
    have hsofar : OneSided (before ++ [f]) := hside.mono hsub
    by_cases hbefore : before = []
    · subst hbefore
      exact absurd (hnew.symm.trans hrow) (by simp)
    · have hmem : ∀ g ∈ before, g ∈ before ++ f :: after := fun g hg => List.mem_append_left _ hg
      obtain ⟨q, hq, hacc⟩ := exists_accumulated hbefore (fun g hg => hkey g (hmem g hg))
        hsofar.of_concat (fun g hg => hpriced g (hmem g hg)) hnew
      obtain rfl : q = p := Option.some.inj (hq.symm.trans hrow)
      rw [hacc.netQuantity, ← netDelta_concat]
      exact abs_ne_zero.2 (hsofar.netDelta_ne_zero (by simp))

/-! Two buys at different prices. -/

/-- A position of the sample agent. -/
def samplePosition : PositionKey := ⟨.fill 1, "BTC", "V", "USD"⟩

/-- A fill of that position. -/
def Fill.sample (delta price : ℚ) : Fill := ⟨samplePosition, delta, some price, 1, .fill 2⟩

/-- The row that two fills make. -/
theorem positionOf_two (d p d' p' : ℚ) :
    positionOf (upsertPositions [] [.sample d p, .sample d' p']) samplePosition
      = some ((Fill.sample d p).row.add (.sample d' p')) := by
  have hfirst : positionOf (upsertPositions [] [.sample d p]) samplePosition
      = some (Fill.sample d p).row := positionOf_upsertPosition rfl []
  have hkey : ∀ f ∈ [Fill.sample d p] ++ [.sample d' p'], f.key = samplePosition := by
    simp [Fill.sample]
  have hboth := positionOf_concat hkey []
  rw [hfirst] at hboth
  exact hboth

theorem sample_key {d p d' p' : ℚ} :
    ∀ f ∈ [Fill.sample d p, .sample d' p'], f.key = samplePosition := by
  simp [Fill.sample]

theorem sample_priced {d p d' p' : ℚ} :
    ∀ f ∈ [Fill.sample d p, .sample d' p'], f.fillPrice.isSome = true := by
  simp [Fill.sample]

/-- The second of two fills meets the row that the first has made. -/
theorem along_sample {P : List PositionRow → Fill → Prop} {d p d' p' : ℚ}
    (hfirst : positionOf [] samplePosition = none → P [] (.sample d p))
    (hsecond : ∀ positions, positionOf positions samplePosition = some (Fill.sample d p).row →
      P positions (.sample d' p')) :
    Run.Along ledgerStep P [] [.sample d p, .sample d' p'] := by
  refine ⟨hfirst rfl, fun t ht => ⟨?_, fun _ _ => trivial⟩⟩
  obtain rfl := Option.some.inj ht
  exact hsecond _ (positionOf_upsertPosition rfl [])

/-- One unit at 10 and three at 20. -/
theorem vwap_of_two_buys :
    ∃ p, positionOf (upsertPositions [] [.sample 1 10, .sample 3 20]) samplePosition = some p ∧
      p.netQuantity = 4 ∧ p.averagePrice = some (35 / 2) := by
  have hside : OneSided [Fill.sample 1 10, .sample 3 20] := by
    refine Or.inl fun f hf => ?_
    simp only [List.mem_cons, List.not_mem_nil, or_false] at hf
    rcases hf with rfl | rfl
    · exact one_pos
    · exact three_pos
  obtain ⟨⟨p, hp, hnet, havg, -⟩, -⟩ := vwap_of_one_side [] rfl (by simp) sample_key hside
    sample_priced
  refine ⟨p, hp, hnet.trans ?_, havg.trans ?_⟩
  · norm_num [Fill.sample]
  · norm_num [Fill.sample]

/-! ## The average price within the fills -/

/-- The prices of the fills that have one. -/
def fillPrices (fs : List Fill) : List ℚ := fs.filterMap Fill.fillPrice

/-- After these fills, an open position's average price lies within their prices. -/
def EntryPriceWithin (positions : List PositionRow) (key : PositionKey) (fs : List Fill) : Prop :=
  ∀ p a, positionOf (upsertPositions positions fs) key = some p → p.netQuantity ≠ 0 →
    p.averagePrice = some a → (∃ low ∈ fillPrices fs, low ≤ a) ∧ ∃ high ∈ fillPrices fs, a ≤ high

/-- The fill has no price, finds the position closed or closes it, or adds on the same side to a
position whose average price is known.  (Where it is not known, it is taken as zero; this does no
harm to a position that is twice the fill on the other side.) -/
def KeepsAverage (key : PositionKey) (positions : List PositionRow) (f : Fill) : Prop :=
  ∀ p, positionOf positions key = some p → f.fillPrice.isSome = true → p.netQuantity ≠ 0 →
    p.netQuantity + f.quantityDelta ≠ 0 →
    (p.averagePrice.isSome = true ∧ 0 < p.netQuantity * f.quantityDelta) ∨
      (p.averagePrice = none ∧ p.netQuantity = -2 * f.quantityDelta)

theorem weighted_le {a b x y hi : ℚ} (hx : 0 ≤ x) (hy : 0 ≤ y) (hpos : 0 < x + y) (ha : a ≤ hi)
    (hb : b ≤ hi) : (a * x + b * y) / (x + y) ≤ hi := by
  rw [div_le_iff₀ hpos, mul_add]
  exact add_le_add (mul_le_mul_of_nonneg_right ha hx) (mul_le_mul_of_nonneg_right hb hy)

theorem le_weighted {a b x y lo : ℚ} (hx : 0 ≤ x) (hy : 0 ≤ y) (hpos : 0 < x + y) (ha : lo ≤ a)
    (hb : lo ≤ b) : lo ≤ (a * x + b * y) / (x + y) := by
  rw [le_div_iff₀ hpos, mul_add]
  exact add_le_add (mul_le_mul_of_nonneg_right ha hx) (mul_le_mul_of_nonneg_right hb hy)

/-- Quantities on the same side add up. -/
theorem abs_add_of_same_side {x y : ℚ} (h : 0 < x * y) : |x + y| = |x| + |y| := by
  rw [abs_add_eq_add_abs_iff]
  rcases pos_and_pos_or_neg_and_neg_of_mul_pos h with ⟨hx, hy⟩ | ⟨hx, hy⟩
  · exact Or.inl ⟨hx.le, hy.le⟩
  · exact Or.inr ⟨hx.le, hy.le⟩

/-- All average prices of the key lie in an interval. -/
def AverageIn (lo hi : ℚ) (key : PositionKey) (positions : List PositionRow) : Prop :=
  ∀ p a, positionOf positions key = some p → p.averagePrice = some a → lo ≤ a ∧ a ≤ hi

/-- The average of a priced fill and the position it meets, where that average is one. -/
theorem averageIn_add {lo hi price a : ℚ} {p : PositionRow} {f : Fill}
    (hprice : f.fillPrice = some price) (hin : lo ≤ price ∧ price ≤ hi)
    (hp : ∀ b, p.averagePrice = some b → lo ≤ b ∧ b ≤ hi)
    (hmoves : p.netQuantity + f.quantityDelta ≠ 0)
    (hkeeps : p.netQuantity = 0 ∨
      (p.averagePrice.isSome = true ∧ 0 < p.netQuantity * f.quantityDelta) ∨
      (p.averagePrice = none ∧ p.netQuantity = -2 * f.quantityDelta))
    (ha : (p.add f).averagePrice = some a) : lo ≤ a ∧ a ≤ hi := by
  rw [averagePrice_add hprice hmoves, Option.some.injEq] at ha
  subst ha
  have hdiv : 0 < |p.netQuantity + f.quantityDelta| := abs_pos.2 hmoves
  rcases hkeeps with hflat | ⟨hsome, hside⟩ | ⟨hnone, hdouble⟩
  · rw [hflat, zero_add] at hdiv
    rw [hflat, abs_zero, mul_zero, zero_add, zero_add, mul_div_assoc, div_self hdiv.ne', mul_one]
    exact hin
  · obtain ⟨b, hb⟩ := Option.isSome_iff_exists.1 hsome
    obtain ⟨hlo, hhi⟩ := hp b hb
    rw [abs_add_of_same_side hside] at hdiv ⊢
    rw [hb, Option.getD_some]
    exact ⟨le_weighted (abs_nonneg _) (abs_nonneg _) hdiv hlo hin.1,
      weighted_le (abs_nonneg _) (abs_nonneg _) hdiv hhi hin.2⟩
  · have hrest : p.netQuantity + f.quantityDelta = -f.quantityDelta := by
      linarith
    rw [hrest, abs_neg] at hdiv ⊢
    rw [hnone, Option.getD_none, zero_mul, zero_add, mul_div_assoc, div_self hdiv.ne', mul_one]
    exact hin

theorem AverageIn.step {lo hi : ℚ} {key : PositionKey} {positions : List PositionRow} {f : Fill}
    (h : AverageIn lo hi key positions) (hf : f.key = key)
    (hprice : ∀ price, f.fillPrice = some price → lo ≤ price ∧ price ≤ hi)
    (hkeeps : KeepsAverage key positions f) : AverageIn lo hi key (upsertPosition positions f) := by
  intro q a hq ha
  rw [positionOf_upsertPosition hf, Option.some.injEq] at hq
  subst hq
  cases hrow : positionOf positions key with
  | none =>
    rw [hrow] at ha
    have hfill : (if f.quantityDelta ≠ 0 then f.fillPrice else none) = some a := ha
    split at hfill
    · exact hprice a hfill
    · cases hfill
  | some p =>
    rw [hrow] at ha
    have hold : p.averagePrice = some a → lo ≤ a ∧ a ≤ hi := h p a hrow
    cases hpriced : f.fillPrice with
    | none => exact hold (by simpa [Fill.applyTo, PositionRow.add, hpriced] using ha)
    | some price =>
      by_cases hmoves : p.netQuantity + f.quantityDelta = 0
      · exact hold (by simpa [Fill.applyTo, PositionRow.add, hpriced, hmoves] using ha)
      · refine averageIn_add hpriced (hprice price hpriced) (h p · hrow) hmoves ?_ ha
        by_cases hflat : p.netQuantity = 0
        · exact Or.inl hflat
        · exact Or.inr (hkeeps p hrow (by simp [hpriced]) hflat hmoves)

theorem AverageIn.run {lo hi : ℚ} {key : PositionKey} {positions : List PositionRow}
    {fs : List Fill} (h : AverageIn lo hi key positions) (hkey : ∀ f ∈ fs, f.key = key)
    (hprices : ∀ price ∈ fillPrices fs, lo ≤ price ∧ price ≤ hi)
    (halong : Run.Along ledgerStep (KeepsAverage key) positions fs) :
    AverageIn lo hi key (upsertPositions positions fs) := by
  induction fs generalizing positions with
  | nil => exact h
  | cons f fs ih =>
    have hprice : ∀ price, f.fillPrice = some price → lo ≤ price ∧ price ≤ hi :=
      fun price hf => hprices price (List.mem_filterMap.2 ⟨f, by simp, hf⟩)
    refine ih (h.step (hkey f (by simp)) hprice halong.1) (fun g hg => hkey g (by simp [hg])) ?_
      (halong.2 _ rfl)
    intro price hmem
    obtain ⟨g, hg, hgprice⟩ := List.mem_filterMap.1 hmem
    exact hprices price (List.mem_filterMap.2 ⟨g, by simp [hg], hgprice⟩)

theorem averageIn_of_new {key : PositionKey} {positions : List PositionRow}
    (hnew : positionOf positions key = none) (lo hi : ℚ) : AverageIn lo hi key positions := by
  intro p a hp
  rw [hnew] at hp
  cases hp

/-- What lies below all of finitely many values lies below a bound of them. -/
theorem exists_bound_of_forall_lt {α : Type*} [LinearOrder α] [NoMaxOrder α] {a : α} {l : List α}
    (h : ∀ x ∈ l, a < x) : ∃ lo, a < lo ∧ ∀ x ∈ l, lo ≤ x := by
  induction l with
  | nil =>
    obtain ⟨lo, hlo⟩ := exists_gt a
    exact ⟨lo, hlo, by simp⟩
  | cons x l ih =>
    obtain ⟨lo, hlo, hle⟩ := ih fun y hy => h y (by simp [hy])
    refine ⟨min x lo, lt_min (h x (by simp)) hlo, ?_⟩
    intro y hy
    rcases List.mem_cons.1 hy with rfl | hy
    · exact min_le_left y lo
    · exact (min_le_right x lo).trans (hle y hy)

/-- A value that lies in every interval around the prices lies between two of them. -/
theorem between_of_forall_interval {a : ℚ} {l : List ℚ}
    (h : ∀ lo hi, (∀ x ∈ l, lo ≤ x ∧ x ≤ hi) → lo ≤ a ∧ a ≤ hi) :
    (∃ low ∈ l, low ≤ a) ∧ ∃ high ∈ l, a ≤ high := by
  obtain ⟨top, htop⟩ := (List.finite_toSet l).bddAbove
  obtain ⟨bottom, hbottom⟩ := (List.finite_toSet l).bddBelow
  constructor
  · by_contra hno
    push Not at hno
    obtain ⟨lo, hlo, hle⟩ := exists_bound_of_forall_lt hno
    exact absurd (h lo top fun x hx => ⟨hle x hx, htop hx⟩).1 (not_le.2 hlo)
  · by_contra hno
    push Not at hno
    obtain ⟨hi, hhi, hle⟩ := exists_bound_of_forall_lt (α := ℚᵒᵈ) hno
    exact absurd (h bottom hi fun x hx => ⟨hbottom hx, hle x hx⟩).2 (not_le.2 hhi)

theorem entryPriceWithin_of_along {positions : List PositionRow} {key : PositionKey}
    {fs : List Fill} (hnew : positionOf positions key = none) (hkey : ∀ f ∈ fs, f.key = key)
    (halong : Run.Along ledgerStep (KeepsAverage key) positions fs) :
    EntryPriceWithin positions key fs := by
  intro p a hp _ ha
  refine between_of_forall_interval fun lo hi hprices => ?_
  exact (averageIn_of_new hnew lo hi).run hkey hprices halong p a hp ha

/-- A priced fill that does not keep the average moves it off the one price there is. -/
theorem average_ne_of_not_keeps {key : PositionKey} {positions : List PositionRow}
    {f : Fill} {c : ℚ} (hc : 0 < c) (hin : AverageIn c c key positions) (hd : f.quantityDelta ≠ 0)
    (hprice : ∀ price, f.fillPrice = some price → price = c) (h : ¬ KeepsAverage key positions f) :
    ∃ p a, positionOf positions key = some p ∧ p.netQuantity + f.quantityDelta ≠ 0 ∧
      (p.add f).averagePrice = some a ∧ a ≠ c := by
  unfold KeepsAverage at h
  push Not at h
  obtain ⟨p, hp, hpriced, hopen, hmoves, hside, hdouble⟩ := h
  obtain ⟨price, hsome⟩ := Option.isSome_iff_exists.1 hpriced
  obtain rfl := hprice price hsome
  refine ⟨p, _, hp, hmoves, averagePrice_add hsome hmoves, fun heq => ?_⟩
  rw [div_eq_iff (abs_ne_zero.2 hmoves)] at heq
  cases havg : p.averagePrice with
  | none =>
    rw [havg, Option.getD_none, zero_mul, zero_add, mul_right_inj' hc.ne'] at heq
    rcases abs_eq_abs.1 heq with hsame | hopposite
    · exact hopen (by linarith)
    · exact hdouble havg (by linarith)
  | some b =>
    obtain rfl : b = price := le_antisymm (hin p b hp havg).2 (hin p b hp havg).1
    rw [havg, Option.getD_some, ← mul_add, mul_right_inj' hc.ne', eq_comm,
      abs_add_eq_add_abs_iff] at heq
    have hle := hside (by rw [havg]; rfl)
    have hge : 0 ≤ p.netQuantity * f.quantityDelta := by
      rcases heq with ⟨hx, hy⟩ | ⟨hx, hy⟩
      · exact mul_nonneg hx hy
      · exact mul_nonneg_of_nonpos_of_nonpos hx hy
    exact mul_ne_zero hopen hd (le_antisymm hle hge)

/-- **The average price within the fills.**  If every fill of a run keeps the average, an open
position's average lies within the prices of the fills after each of them.  Any other fill, made at
the one price there has been so far, takes the average off that price. -/
theorem entry_price_within (positions : List PositionRow) {key : PositionKey} {fs : List Fill}
    (hnew : positionOf positions key = none) (hkey : ∀ f ∈ fs, f.key = key)
    (halong : Run.Along ledgerStep (KeepsAverage key) positions fs) :
    (∀ before, before <+: fs → EntryPriceWithin positions key before) ∧
    ∀ (f : Fill) (c : ℚ), f.key = key → f.quantityDelta ≠ 0 → 0 < c →
      (∀ price ∈ fillPrices (fs ++ [f]), price = c) →
      ¬ KeepsAverage key (upsertPositions positions fs) f →
      ¬ EntryPriceWithin positions key (fs ++ [f]) := by
  constructor
  · rintro before ⟨after, rfl⟩
    refine entryPriceWithin_of_along hnew (fun f hf => hkey f (by simp [hf])) ?_
    exact (Run.along_append halong (run_ledgerStep positions before)).1
  · intro f c hf hd hc hprices hkeeps hwithin
    have hbounds : ∀ price ∈ fillPrices fs, c ≤ price ∧ price ≤ c := by
      intro price hmem
      have heq :=
        hprices price
          (by simp only [fillPrices, List.filterMap_append]; exact List.mem_append_left _ hmem)
      exact ⟨heq.ge, heq.le⟩
    have hin : AverageIn c c key (upsertPositions positions fs) :=
      (averageIn_of_new hnew c c).run hkey hbounds halong
    have hlast : ∀ price, f.fillPrice = some price → price = c :=
      fun price hsome => hprices price (List.mem_filterMap.2 ⟨f, by simp, hsome⟩)
    obtain ⟨p, a, hp, hmoves, ha, hne⟩ := average_ne_of_not_keeps hc hin hd hlast hkeeps
    have hrow : positionOf (upsertPositions positions (fs ++ [f])) key = some (p.add f) := by
      rw [upsertPositions_append]
      exact (positionOf_upsertPosition hf _).trans (by rw [hp]; rfl)
    obtain ⟨⟨low, hlow, hle⟩, high, hhigh, hge⟩ := hwithin (p.add f) a hrow hmoves ha
    rw [hprices low hlow] at hle
    rw [hprices high hhigh] at hge
    exact hne (le_antisymm hge hle)

/-- Two units at 10 are bought and one is sold at 10: the average becomes 30. -/
theorem average_out_of_range :
    ¬ EntryPriceWithin [] samplePosition [.sample 2 10, .sample (-1) 10] := by
  have havg : ((Fill.sample 2 10).row.add (.sample (-1) 10)).averagePrice = some 30 := by
    norm_num [Fill.row, PositionRow.add, Fill.sample]
  intro h
  obtain ⟨-, high, hhigh, hle⟩ := h _ 30 (positionOf_two 2 10 (-1) 10)
    (by norm_num [Fill.row, PositionRow.add, Fill.sample]) havg
  have hten : high = 10 := by simpa [fillPrices, Fill.sample] using hhigh
  rw [hten] at hle
  norm_num at hle

theorem keepsAverage_two_buys :
    Run.Along ledgerStep (KeepsAverage samplePosition) [] [.sample 1 10, .sample 3 20] := by
  refine along_sample (fun hnone p hp => absurd (hnone.symm.trans hp) (by simp)) ?_
  intro positions hrow p hp _ _ _
  obtain rfl := Option.some.inj (hrow.symm.trans hp)
  refine Or.inl ⟨?_, ?_⟩
  · simp [Fill.row, Fill.sample]
  · norm_num [Fill.row, Fill.sample]

/-- Two buys, at 10 and at 20. -/
theorem entry_price_of_two_buys :
    EntryPriceWithin [] samplePosition [.sample 1 10, .sample 3 20] :=
  (entry_price_within [] rfl sample_key keepsAverage_two_buys).1 _ (List.prefix_refl _)

/-! ## Notional and exposure -/

/-- The notional is the value of the net quantity at the average price. -/
def ExposureIs (m : ℚ) (p : PositionRow) : Prop :=
  p.notional = |p.netQuantity| * p.averagePrice.getD 0 * m

/-- The fill does not close an open position, or adds nothing to its notional when it does. -/
def KeepsExposure (key : PositionKey) (m : ℚ) (positions : List PositionRow) (f : Fill) : Prop :=
  ∀ p, positionOf positions key = some p → p.netQuantity ≠ 0 →
    p.netQuantity + f.quantityDelta = 0 → m = 0 ∨ f.fillPrice = some (-p.averagePrice.getD 0)

theorem exposureIs_row {f : Fill} (hpriced : f.fillPrice.isSome = true) :
    ExposureIs f.multiplier f.row := by
  obtain ⟨price, hprice⟩ := Option.isSome_iff_exists.1 hpriced
  unfold ExposureIs Fill.row Fill.notional
  by_cases hd : f.quantityDelta = 0
  · simp [hprice, hd]
  · simp [hprice, hd]

/-- A fill that leaves the position open keeps the relation; one that closes it adds to a notional
that should have become zero. -/
theorem exposureIs_add_iff {p : PositionRow} {f : Fill} (hpriced : f.fillPrice.isSome = true)
    (hp : ExposureIs f.multiplier p) :
    ExposureIs f.multiplier (p.add f) ↔
      (p.netQuantity ≠ 0 → p.netQuantity + f.quantityDelta = 0 →
        f.multiplier = 0 ∨ f.fillPrice = some (-p.averagePrice.getD 0)) := by
  obtain ⟨price, hprice⟩ := Option.isSome_iff_exists.1 hpriced
  have hnotional : (p.add f).notional
      = (|p.netQuantity| * p.averagePrice.getD 0 + |f.quantityDelta| * price) * f.multiplier := by
    show p.notional + f.notional = _
    rw [hp, Fill.notional, hprice, add_mul]
  unfold ExposureIs
  rw [hnotional]
  by_cases hmoves : p.netQuantity + f.quantityDelta = 0
  · have hnet : (p.add f).netQuantity = 0 := hmoves
    have hd : f.quantityDelta = -p.netQuantity := by linarith
    rw [hnet, abs_zero, zero_mul, zero_mul, hd, abs_neg, ← mul_add, mul_eq_zero, mul_eq_zero,
      abs_eq_zero, hprice, Option.some.injEq, add_eq_zero_iff_neg_eq, eq_comm (a := price)]
    constructor
    · rintro ((hflat | hopposite) | hm) hopen -
      · exact absurd hflat hopen
      · exact Or.inr hopposite
      · exact Or.inl hm
    · intro h
      by_cases hopen : p.netQuantity = 0
      · exact Or.inl (Or.inl hopen)
      · rcases h hopen (add_neg_cancel _) with hm | hopposite
        · exact Or.inr hm
        · exact Or.inl (Or.inr hopposite)
  · have hnet : (p.add f).netQuantity = p.netQuantity + f.quantityDelta := rfl
    refine iff_of_true ?_ fun _ hclosed => absurd hclosed hmoves
    rw [hnet, averagePrice_add hprice hmoves, Option.getD_some,
      mul_div_cancel₀ _ (abs_ne_zero.2 hmoves), mul_comm price, mul_comm |p.netQuantity|]

/-- **Notional is current exposure exactly until a position is closed.**  For priced fills of one
key with one multiplier, the row satisfies `notional = |net_quantity| * average_price * m` after
every fill if and only if no fill brings an open position to zero (or adds nothing when it does:
the multiplier is zero, or the price the negative of the average). -/
theorem notional_exposure_iff (positions : List PositionRow) {key : PositionKey} {m : ℚ}
    {fs : List Fill} (hnew : positionOf positions key = none) (hkey : ∀ f ∈ fs, f.key = key)
    (hpriced : ∀ f ∈ fs, f.fillPrice.isSome = true) (hm : ∀ f ∈ fs, f.multiplier = m) :
    (∀ before, before <+: fs → ∀ p, positionOf (upsertPositions positions before) key = some p →
      p.notional = |p.netQuantity| * p.averagePrice.getD 0 * m) ↔
    Run.Along ledgerStep (KeepsExposure key m) positions fs := by
  have hexact := Run.forall_prefix_iff_along (P := KeepsExposure key m)
    (I := fun ps => ∀ p, positionOf ps key = some p → ExposureIs m p) ?_
    (run_ledgerStep positions fs) ?_
  · rw [← hexact]
    constructor
    · intro h before t hpre ht
      rw [run_ledgerStep, Option.some.injEq] at ht
      exact ht ▸ h before hpre
    · intro h before hpre
      exact h before _ hpre (run_ledgerStep positions before)
  · intro ps f hf t hps ht
    obtain rfl := Option.some.inj ht
    obtain rfl := hm f hf
    have hrow := positionOf_upsertPosition (hkey f hf) ps
    cases hp : positionOf ps key with
    | none =>
      refine iff_of_true ?_ fun p hsome => absurd (hp.symm.trans hsome) (by simp)
      intro q hq
      rw [hrow, hp] at hq
      exact Option.some.inj hq ▸ exposureIs_row (hpriced f hf)
    | some p =>
      rw [hp] at hrow
      have hiff := exposureIs_add_iff (hpriced f hf) (hps p hp)
      constructor
      · intro h q hq
        obtain rfl : p = q := Option.some.inj (hp.symm.trans hq)
        exact hiff.1 (h _ hrow)
      · intro h q hq
        obtain rfl : p.add f = q := Option.some.inj (hrow.symm.trans hq)
        exact hiff.2 (h p hp)
  · intro p hp
    exact absurd (hnew.symm.trans hp) (by simp)

/-- Two buys leave the notional at the value of the position. -/
theorem notional_of_two_buys : ∃ p,
    positionOf (upsertPositions [] [.sample 1 10, .sample 3 20]) samplePosition = some p ∧
      p.notional = |p.netQuantity| * p.averagePrice.getD 0 * 1 := by
  have hm : ∀ f ∈ [Fill.sample 1 10, .sample 3 20], f.multiplier = 1 := by
    simp [Fill.sample]
  have hkeeps : Run.Along ledgerStep (KeepsExposure samplePosition 1) []
      [Fill.sample 1 10, .sample 3 20] := by
    refine along_sample (fun hnone p hp => absurd (hnone.symm.trans hp) (by simp)) ?_
    intro positions hrow p hp _ hclosed
    obtain rfl := Option.some.inj (hrow.symm.trans hp)
    norm_num [Fill.row, Fill.sample] at hclosed
  refine ⟨_, positionOf_two 1 10 3 20, ?_⟩
  exact (notional_exposure_iff [] rfl sample_key sample_priced hm).2 hkeeps _ (List.prefix_refl _) _
    (positionOf_two 1 10 3 20)

/-- One unit is bought and sold at 10: the position is flat, its notional 20. -/
theorem notional_of_flat : ∃ p,
    positionOf (upsertPositions [] [.sample 1 10, .sample (-1) 10]) samplePosition = some p ∧
      p.netQuantity = 0 ∧ p.notional = 20 := by
  refine ⟨_, positionOf_two 1 10 (-1) 10, ?_, ?_⟩
  · norm_num [Fill.row, PositionRow.add, Fill.sample]
  · norm_num [Fill.row, PositionRow.add, Fill.sample, Fill.notional]

end IrlEngine
