import LosslessAudio.Proofs.Shape

/-!
# A channel in one row

The library keeps the parts of a history in lists of their own, makes new lists from old ones, and
takes from a list what is there.  A machine with fixed storage can do none of this.  It keeps the
samples of a channel in one row, the context in front of the block, and overwrites them in place;
and wherever it reaches into a row, there has to be something.

* `Access` — the accesses such a machine makes: parts of a row, single places, quotients and shifts,
  each without an answer where the machine would break down.
* `Row` — a history as the machine keeps it, with the operations of `ChannelHistory` and `Predictor`
  made of these accesses.
* A lemma for each operation: on the row of a history within its bounds it has an answer, and this
  is the row of what the library makes of the history (`decodeBlock?_of_ok` and its companions).  A
  block that cannot be read to its end leaves the context as it was (`decodeBlock?_of_error`).
-/

set_option autoImplicit false

namespace LosslessAudio

/-! ## Accesses -/

namespace Access

variable {α : Type}

/-- The entries from place `first` up to place `last`, which the row has to have. -/
def slice? (xs : List α) (first last : Nat) : Option (List α) :=
  if first ≤ last ∧ last ≤ xs.length then some ((xs.drop first).take (last - first)) else none

/-- Changes the entries from place `first` up to place `last`, which the row has to have. -/
def modify? (f : α → α) (xs : List α) (first last : Nat) : Option (List α) :=
  if first ≤ last ∧ last ≤ xs.length then
    some (xs.take first ++ (((xs.drop first).take (last - first)).map f ++ xs.drop last))
  else none

/-- Copies the entries from place `first` up to place `last`, which the row has to have, to the
front of the row. -/
def copyToFront? (xs : List α) (first last : Nat) : Option (List α) :=
  if first ≤ last ∧ last ≤ xs.length then
    some ((xs.drop first).take (last - first) ++ xs.drop (last - first))
  else none

/-- Overwrites the entry at a place, which the row has to have. -/
def put? (xs : List α) (place : Nat) (x : α) : Option (List α) :=
  if place < xs.length then some (xs.set place x) else none

/-- The place `n` places before another one, which must not lie before the row. -/
def minus? (place n : Nat) : Option Nat :=
  if n ≤ place then some (place - n) else none

/-- A quotient, whose divisor must not be 0. -/
def quotient? (x y : Int32) : Option Int32 :=
  if y = 0 then none else some (x / y)

/-- A shift to the left, by less than the width of a sample. -/
def shiftLeft? (x : Int32) (n : Nat) : Option Int32 :=
  if n < 32 then some (Sample.shiftLeft x n) else none

/-- A shift to the right, by less than the width of a sample. -/
def shiftRight? (x : Int32) (n : Nat) : Option Int32 :=
  if n < 32 then some (Sample.shiftRight x n) else none

/-- One access after the other. -/
theorem bind_of_eq {β : Type} {x : Option α} {f : α → Option β} {a : α} {y : Option β}
    (hx : x = some a) (hf : f a = y) : x >>= f = y := by
  rw [hx]
  exact hf

/-- An access to every entry of a row. -/
theorem mapM_of_eq {β : Type} {f : α → Option β} {g : α → β} {xs : List α}
    (h : ∀ x ∈ xs, f x = some (g x)) : xs.mapM f = some (xs.map g) := by
  induction xs with
  | nil => rfl
  | cons x xs ih =>
    rw [List.mapM_cons, h x List.mem_cons_self,
      ih fun y hy => h y (List.mem_cons_of_mem x hy)]
    rfl

theorem slice?_append (xs ys zs : List α) :
    slice? (xs ++ (ys ++ zs)) xs.length (xs.length + ys.length) = some ys := by
  rw [slice?, if_pos ⟨Nat.le_add_right _ _, by simp only [List.length_append]; omega⟩,
    List.drop_left, Nat.add_sub_cancel_left, List.take_left]

theorem modify?_append (f : α → α) (xs ys zs : List α) :
    modify? f (xs ++ (ys ++ zs)) xs.length (xs.length + ys.length) =
      some (xs ++ (ys.map f ++ zs)) := by
  rw [modify?, if_pos ⟨Nat.le_add_right _ _, by simp only [List.length_append]; omega⟩,
    List.take_left, List.drop_left, Nat.add_sub_cancel_left, List.take_left, ← List.drop_drop,
    List.drop_left, List.drop_left]

theorem put?_append (xs : List α) (x y : α) (zs : List α) :
    put? (xs ++ x :: zs) xs.length y = some (xs ++ y :: zs) := by
  rw [put?, if_pos (by rw [List.length_append, List.length_cons]; omega), List.set_append_right _ _
    (Nat.le_refl _), Nat.sub_self, List.set_cons_zero]

theorem minus?_of_le {place n : Nat} (h : n ≤ place) : minus? place n = some (place - n) :=
  if_pos h

theorem quotient?_of_ne {x y : Int32} (h : y ≠ 0) : quotient? x y = some (x / y) :=
  if_neg h

end Access

/-! ## The parts of a row -/

/-- The history of a channel as a machine keeps it. -/
structure Row where
  /-- The context, and behind it the current block with what is left of a longer one. -/
  samples : List Int32
  contextLength : Nat
  /-- The means of earlier blocks, the oldest one first. -/
  means : List Int32
  deriving DecidableEq, Repr

/-- A history as a machine keeps it. -/
def ChannelHistory.row (h : ChannelHistory) : Row :=
  ⟨h.samples, h.context.length, h.means⟩

namespace Row

variable (row : Row)

/-- The samples right before the block. -/
def context : List Int32 :=
  row.samples.take row.contextLength

/-- The samples behind the context. -/
def block : List Int32 :=
  row.samples.drop row.contextLength

/-- The current block, given its length. -/
def current? (blockSize : Nat) : Option (List Int32) :=
  Access.slice? row.samples row.contextLength (row.contextLength + blockSize)

/-- Changes every sample of the current block. -/
def modifyBlock? (f : Int32 → Int32) (blockSize : Nat) : Option Row := do
  let samples ← Access.modify? f row.samples row.contextLength (row.contextLength + blockSize)
  return { row with samples }

/-- The offset of the next block. -/
def offset? (version : UInt8) (meanCount : Int32) (bitshift : Nat) : Option Int32 :=
  if meanCount = 0 then row.means[0]?
  else do
    let bias := if version < 2 then 0 else meanCount / 2
    let sum := (row.means.take meanCount.toInt.toNat).foldl (· + ·) bias
    let average ← Access.quotient? sum meanCount
    if version < 2 then some average else Access.shiftRight? average (min 1 bitshift)

/-- The mean of the current block, as it is recorded. -/
def blockMean? (version : UInt8) (blockSize bitshift : Nat) : Option Int32 := do
  let bias := if version < 2 then 0 else Int32.ofNat (blockSize / 2)
  let current ← row.current? blockSize
  let mean ← Access.quotient? (current.foldl (· + ·) bias) (Int32.ofNat blockSize)
  if version < 2 then some mean else Access.shiftLeft? mean bitshift

/-- Records the mean of the current block and forgets the oldest one, where means are kept. -/
def pushMean? (version : UInt8) (meanCount : Int32) (blockSize bitshift : Nat) : Option Row :=
  if meanCount ≤ 0 then some row
  else do
    let mean ← row.blockMean? version blockSize bitshift
    let means ← Access.copyToFront? row.means 1 meanCount.toInt.toNat
    let last ← Access.minus? meanCount.toInt.toNat 1
    let means ← Access.put? means last mean
    return { row with means }

/-- Makes the samples that end with the current block the context of the next one. -/
def carryOver? (blockSize : Nat) : Option Row := do
  let samples ← Access.copyToFront? row.samples blockSize (blockSize + row.contextLength)
  return { row with samples }

/-- Puts an offset back on the current block, if one was removed. -/
def addOffset? (removed : Int32) (blockSize : Nat) : Option Row :=
  if removed = 0 then some row else row.modifyBlock? (· + removed) blockSize

/-- Gives back the low bits that were removed from the current block before compression. -/
def shiftBlock? (blockSize bitshift : Nat) : Option Row :=
  if bitshift = 0 then some row
  else if bitshift < 32 then row.modifyBlock? (Sample.shiftLeft · bitshift) blockSize
  else none

end Row

namespace ChannelHistory

variable {h : ChannelHistory} {n : Nat}

@[simp] theorem context_row (h : ChannelHistory) : h.row.context = h.context :=
  List.take_left

@[simp] theorem block_row (h : ChannelHistory) : h.row.block = h.block :=
  List.drop_left

@[simp] theorem means_row (h : ChannelHistory) : h.row.means = h.means := rfl

/-- The row of a history with another context of the same length. -/
theorem row_of_length {context : List Int32} (hlength : context.length = h.context.length) :
    { h with context }.row = ⟨context ++ h.block, h.context.length, h.means⟩ := by
  rw [← hlength]
  rfl

/-- The row with the current block set apart. -/
theorem samples_eq (h : ChannelHistory) (n : Nat) :
    h.samples = h.context ++ (h.current n ++ h.block.drop n) := by
  rw [samples, current, List.take_append_drop]

theorem length_current (hn : n ≤ h.block.length) : (h.current n).length = n := by
  rw [current, List.length_take_of_le hn]

theorem current?_row (hn : n ≤ h.block.length) : h.row.current? n = some (h.current n) := by
  have hslice := Access.slice?_append h.context (h.current n) (h.block.drop n)
  rw [← samples_eq, length_current hn] at hslice
  exact hslice

theorem modifyBlock?_row (f : Int32 → Int32) (hn : n ≤ h.block.length) :
    h.row.modifyBlock? f n = some (h.withBlock ((h.current n).map f)).row := by
  have hmodify := Access.modify?_append f h.context (h.current n) (h.block.drop n)
  rw [← samples_eq, length_current hn] at hmodify
  rw [Row.modifyBlock?, row, hmodify, Option.bind_eq_bind, Option.bind_some, withBlock,
    List.length_map, length_current hn]
  rfl

theorem offset?_row {meanCount : Int32} (hmeans : h.means.length = keptMeans meanCount)
    (version : UInt8) (bitshift : Nat) :
    h.row.offset? version meanCount bitshift = some (h.offset version meanCount bitshift) := by
  rw [Row.offset?, offset]
  split
  · rename_i hzero
    rw [hzero] at hmeans
    cases hlist : h.means with
    | nil => rw [hlist] at hmeans; cases hmeans
    | cons mean means => rw [means_row, hlist]; rfl
  · rename_i hzero
    refine Access.bind_of_eq (Access.quotient?_of_ne hzero) ?_
    split
    · rfl
    · rw [Access.shiftRight?, if_pos (Nat.lt_of_le_of_lt (Nat.min_le_left _ _) (by decide))]
      rfl

theorem blockMean?_row (hn : n ≤ h.block.length) (hpos : Int32.ofNat n ≠ 0) {bitshift : Nat}
    (hbitshift : bitshift < 32) (version : UInt8) :
    h.row.blockMean? version n bitshift = some (h.blockMean version n bitshift) := by
  refine Access.bind_of_eq (current?_row hn) (Access.bind_of_eq (Access.quotient?_of_ne hpos) ?_)
  rw [blockMean]
  split
  · rfl
  · rw [Access.shiftLeft?, if_pos hbitshift]

theorem pushMean?_row {meanCount : Int32} (hmeans : h.means.length = keptMeans meanCount)
    (hn : n ≤ h.block.length) (hpos : Int32.ofNat n ≠ 0) {bitshift : Nat}
    (hbitshift : bitshift < 32) (version : UInt8) :
    h.row.pushMean? version meanCount n bitshift =
      some (h.pushMean version meanCount n bitshift).row := by
  rw [Row.pushMean?, pushMean]
  split
  · rfl
  · rename_i hcount
    rw [Int32.le_iff_toInt_le] at hcount
    have hcount : 0 < meanCount.toInt := Int.not_le.1 hcount
    have hlength : meanCount.toInt.toNat = h.means.length := by
      rw [hmeans, keptMeans]
      omega
    have hpos' : 1 ≤ h.means.length := by omega
    have hdrop : (h.means.drop 1).length = h.means.length - 1 := List.length_drop
    obtain ⟨x, hx⟩ : ∃ x, h.means.drop (h.means.length - 1) = [x] :=
      List.length_eq_one_iff.1 (by rw [List.length_drop]; omega)
    -- the oldest mean goes, and the last place is there twice until it is overwritten
    have hmoved : Access.copyToFront? h.means 1 h.means.length = some (h.means.drop 1 ++ [x]) := by
      rw [Access.copyToFront?, if_pos ⟨hpos', Nat.le_refl _⟩, List.take_of_length_le (by omega),
        hx]
    have hput := Access.put?_append (h.means.drop 1) x (h.blockMean version n bitshift) []
    rw [hdrop] at hput
    rw [hlength]
    refine Access.bind_of_eq (blockMean?_row hn hpos hbitshift version) ?_
    refine Access.bind_of_eq hmoved (Access.bind_of_eq (Access.minus?_of_le hpos') ?_)
    refine Access.bind_of_eq hput ?_
    have hmeans' : (h.means.take h.means.length).drop 1 ++ [h.blockMean version n bitshift] ++
        h.means.drop h.means.length = h.means.drop 1 ++ [h.blockMean version n bitshift] := by
      rw [List.take_length, List.drop_length, List.append_nil]
    exact congrArg (fun means => some (⟨h.samples, h.context.length, means⟩ : Row)) hmeans'.symm

theorem carryOver?_row (hn : n ≤ h.block.length) :
    h.row.carryOver? n = some (h.carryOver n).row := by
  have hlength : h.samples.length = h.context.length + h.block.length := List.length_append
  have hcarried : ((h.samples.drop n).take h.context.length).length = h.context.length := by
    rw [List.length_take, List.length_drop]
    omega
  have hcopy : Access.copyToFront? h.samples n (n + h.context.length) =
      some ((h.samples.drop n).take h.context.length ++ h.block) := by
    rw [Access.copyToFront?, if_pos ⟨Nat.le_add_right _ _, by omega⟩, Nat.add_sub_cancel_left,
      samples, List.drop_left]
  refine Access.bind_of_eq hcopy ?_
  exact congrArg (fun length => some (⟨_, length, h.means⟩ : Row)) hcarried.symm

theorem addOffset?_row (hn : n ≤ h.block.length) (removed : Int32) :
    h.row.addOffset? removed n = some (h.withBlock ((h.current n).map (· + removed))).row := by
  rw [Row.addOffset?]
  split
  · rename_i hzero
    rw [List.map_congr_left (g := id) (fun x _ => by rw [hzero, Int32.add_zero, id]), List.map_id,
      withBlock, length_current hn, current, List.take_append_drop]
  · exact modifyBlock?_row _ hn

theorem shiftBlock?_row (hn : n ≤ h.block.length) {bitshift : Nat} (hbitshift : bitshift < 32) :
    h.row.shiftBlock? n bitshift = some (h.shiftBlock n bitshift).row := by
  rw [Row.shiftBlock?, shiftBlock]
  by_cases hzero : bitshift = 0
  · rw [if_pos hzero, if_pos hzero]
  · rw [if_neg hzero, if_neg hzero, if_pos hbitshift]
    exact modifyBlock?_row _ hn

end ChannelHistory

/-! ## Prediction -/

namespace Predictor

/-- The weights of the polynomial predictors, that of order 1 first. -/
def fixedWeights : List (List Int32) :=
  [[1], [2, -1], [3, -3, 1]]

/-- The weights of the earlier samples, that of the last one first. -/
def weights? : Predictor → Option (List Int32)
  | .fixed order =>
    if order.val = 0 then some [] else do
      let entry ← Access.minus? order 1
      fixedWeights[entry]?
  | .linear coefficients => some coefficients

/-- Adds what the samples before a place contribute, from the sample `back + 1` places before it
on. -/
def sum? (samples : List Int32) (place : Nat) :
    (back : Nat) → (weights : List Int32) → (sum : Int32) → Option Int32
  | _, [], sum => some sum
  | back, w :: weights, sum => do
    let earlier ← Access.minus? place (back + 1)
    let x ← samples[earlier]?
    sum? samples place (back + 1) weights (sum + w * x)

/-- Decodes `n` samples from a place on.  Those that come before a failure stay where they are. -/
def fill? (weights : List Int32) (shift : Nat) (base parameter : Int32) (r : BitReader)
    (samples : List Int32) (place : Nat) :
    Nat → Option (Except ReadFault BitReader × List Int32)
  | 0 => some (.ok r, samples)
  | n + 1 => do
    let sum ← sum? samples place 0 weights base
    match r.signedRice parameter with
    | .error e => some (.error e, samples)
    | .ok (residual, r) =>
      let predicted ← Access.shiftRight? sum shift
      let samples ← Access.put? samples place (residual + predicted)
      fill? weights shift base parameter r samples (place + 1) n

/-- Changes the samples in front of the block that the predictor looks at, if it removes an
offset. -/
def modifyContext? (p : Predictor) (offset : Int32) (f : Int32 → Int32) (row : Row) :
    Option Row :=
  if p.removedOffset offset = 0 then some row
  else do
    let first ← Access.minus? row.contextLength p.order
    let samples ← Access.modify? f row.samples first row.contextLength
    return { row with samples }

/-- Decodes one block in place, whose residuals have the given Rice parameter. -/
def decodeBlock? (p : Predictor) (row : Row) (blockSize : Nat) (parameter offset bias : Int32)
    (r : BitReader) : Option (Except ReadFault BitReader × Row) := do
  let weights ← p.weights?
  let removed := p.removedOffset offset
  let row ← p.modifyContext? offset (· - removed) row
  let (outcome, samples) ← fill? weights p.shift (p.base offset bias) parameter r row.samples
    row.contextLength blockSize
  let row := { row with samples }
  match outcome with
  | .error e => do
    let row ← p.modifyContext? offset (· + removed) row
    return (.error e, row)
  | .ok r => do
    let row ← row.addOffset? removed blockSize
    return (.ok r, row)

variable {p : Predictor}

theorem weights?_eq (p : Predictor) : p.weights? = some p.weights := by
  cases p with
  | linear coefficients => rfl
  | fixed order =>
    match order with
    | 0 | 1 | 2 | 3 => rfl

theorem shift_lt (p : Predictor) : p.shift < 32 := by
  cases p with
  | fixed order => exact Nat.zero_lt_succ 31
  | linear coefficients => exact (by decide : precision < 32)

/-- The samples before the place are `past`, the last one first. -/
theorem sum?_eq (past rest : List Int32) (back : Nat) (weights : List Int32) (sum : Int32)
    (hlength : back + weights.length ≤ past.length) :
    sum? (past.reverse ++ rest) past.length back weights sum =
      some ((List.zipWith (· * ·) weights (past.drop back)).foldl (· + ·) sum) := by
  induction weights generalizing back sum with
  | nil => rfl
  | cons w weights ih =>
    rw [List.length_cons] at hlength
    have hback : back < past.length := by omega
    have hentry : (past.reverse ++ rest)[past.length - (back + 1)]? = some past[back] := by
      rw [List.getElem?_append_left (by rw [List.length_reverse]; omega),
        List.getElem?_reverse (by omega), show past.length - 1 - (past.length - (back + 1)) = back
          by omega, List.getElem?_eq_getElem hback]
    refine Access.bind_of_eq (Access.minus?_of_le hback) (Access.bind_of_eq hentry ?_)
    rw [ih _ _ (by omega), List.drop_eq_getElem_cons hback]
    rfl

/-- The row in front of a place, read back from it, is what was decoded. -/
theorem fill?_of_ok {base parameter : Int32} {r r' : BitReader} {past past' : List Int32}
    (rest : List Int32) {n : Nat} (horder : p.order ≤ past.length) (hn : n ≤ rest.length)
    (h : p.extend base parameter r past n = .ok (past', r')) :
    fill? p.weights p.shift base parameter r (past.reverse ++ rest) past.length n =
      some (.ok r', past'.reverse ++ rest.drop n) := by
  induction n generalizing r past rest with
  | zero => cases h; rfl
  | succ n ih =>
    obtain ⟨⟨residual, r₁⟩, hresidual, h⟩ := bind_eq_ok.1 h
    obtain ⟨x, rest, rfl⟩ := List.exists_cons_of_length_pos (Nat.zero_lt_of_lt hn)
    have hput := Access.put?_append past.reverse x (residual + p.predict base past) rest
    rw [List.length_reverse] at hput
    refine Access.bind_of_eq (sum?_eq past _ 0 p.weights base (by rwa [Nat.zero_add])) ?_
    rw [hresidual]
    refine Access.bind_of_eq (if_pos p.shift_lt) (Access.bind_of_eq hput ?_)
    have horder' : p.order ≤ ((residual + p.predict base past) :: past).length :=
      Nat.le_succ_of_le horder
    have hrow := ih rest horder' (Nat.le_of_succ_le_succ hn) h
    rw [List.reverse_cons, List.append_assoc] at hrow
    exact hrow

theorem fill?_of_error {base parameter : Int32} {r : BitReader} {past : List Int32}
    (rest : List Int32) {n : Nat} {e : ReadFault} (horder : p.order ≤ past.length)
    (hn : n ≤ rest.length) (h : p.extend base parameter r past n = .error e) :
    ∃ rest', rest'.length = rest.length ∧
      fill? p.weights p.shift base parameter r (past.reverse ++ rest) past.length n =
        some (.error e, past.reverse ++ rest') := by
  induction n generalizing r past rest with
  | zero => cases h
  | succ n ih =>
    have hsum := sum?_eq past rest 0 p.weights base (by rwa [Nat.zero_add])
    rcases bind_eq_error.1 h with hresidual | ⟨⟨residual, r₁⟩, hresidual, h⟩
    · refine ⟨rest, rfl, Access.bind_of_eq hsum ?_⟩
      rw [hresidual]
    · obtain ⟨x, rest, rfl⟩ := List.exists_cons_of_length_pos (Nat.zero_lt_of_lt hn)
      have hput := Access.put?_append past.reverse x (residual + p.predict base past) rest
      rw [List.length_reverse] at hput
      have horder' : p.order ≤ ((residual + p.predict base past) :: past).length :=
        Nat.le_succ_of_le horder
      obtain ⟨rest', hlength, hrow⟩ := ih rest horder' (Nat.le_of_succ_le_succ hn) h
      refine ⟨(residual + p.predict base past) :: rest', congrArg (· + 1) hlength,
        Access.bind_of_eq hsum ?_⟩
      rw [hresidual]
      refine Access.bind_of_eq (if_pos p.shift_lt) (Access.bind_of_eq hput ?_)
      rw [List.reverse_cons, List.append_assoc, List.append_assoc] at hrow
      exact hrow

theorem drop_of_extend {base parameter : Int32} {r r' : BitReader} {past past' : List Int32}
    {n : Nat} (h : p.extend base parameter r past n = .ok (past', r')) : past'.drop n = past := by
  induction n generalizing r past with
  | zero => cases h; rfl
  | succ n ih =>
    obtain ⟨⟨residual, r₁⟩, -, h⟩ := bind_eq_ok.1 h
    rw [← List.drop_drop, ih h]
    rfl

variable {h : ChannelHistory} {offset : Int32}

theorem modifyContext?_row (offset : Int32) (horder : p.order ≤ h.context.length)
    {f : Int32 → Int32} (hf : p.removedOffset offset = 0 → ∀ x, f x = x) :
    p.modifyContext? offset f h.row = some { h with
      context := h.context.take (h.context.length - p.order) ++
        (h.context.drop (h.context.length - p.order)).map f }.row := by
  have hdrop : (h.context.drop (h.context.length - p.order)).length = p.order := by
    rw [List.length_drop]
    omega
  have htake : (h.context.take (h.context.length - p.order)).length =
      h.context.length - p.order := List.length_take_of_le (Nat.sub_le _ _)
  rw [modifyContext?]
  split
  · rename_i hzero
    rw [List.map_congr_left (g := id) (fun x _ => hf hzero x), List.map_id,
      List.take_append_drop]
  · have hmodify := Access.modify?_append f (h.context.take (h.context.length - p.order))
      (h.context.drop (h.context.length - p.order)) h.block
    rw [htake, hdrop, Nat.sub_add_cancel horder, ← List.append_assoc, List.take_append_drop]
      at hmodify
    have hlength : (h.context.take (h.context.length - p.order) ++
        (h.context.drop (h.context.length - p.order)).map f).length = h.context.length := by
      rw [List.length_append, List.length_map, htake, hdrop, Nat.sub_add_cancel horder]
    refine Access.bind_of_eq (Access.minus?_of_le horder) (Access.bind_of_eq hmodify ?_)
    rw [ChannelHistory.row_of_length hlength, List.append_assoc]
    rfl

/-- Taking the offset off and putting it back leaves a context as it was. -/
theorem add_removeOffset (p : Predictor) (offset : Int32) (context : List Int32) :
    (p.removeOffset offset context).take (context.length - p.order) ++
      ((p.removeOffset offset context).drop (context.length - p.order)).map
        (· + p.removedOffset offset) = context := by
  have htake : (context.take (context.length - p.order)).length = context.length - p.order :=
    List.length_take_of_le (Nat.sub_le _ _)
  have hinverse : (· + p.removedOffset offset) ∘ (· - p.removedOffset offset) = id :=
    funext fun x => Int32.sub_add_cancel x _
  rw [removeOffset, List.take_left' htake, List.drop_left' htake, List.map_map, hinverse,
    List.map_id, List.take_append_drop]

variable {n : Nat} {parameter bias : Int32} {r r' : BitReader}

/-- **A block decoded in place** is the block that the library decodes. -/
theorem decodeBlock?_of_ok (horder : p.order ≤ h.context.length) (hn : n ≤ h.block.length)
    {h' : ChannelHistory} (hd : p.decodeBlock h n parameter offset bias r = .ok (h', r')) :
    p.decodeBlock? h.row n parameter offset bias r = some (.ok r', h'.row) := by
  obtain ⟨⟨past, r₁⟩, hextend, hd⟩ := bind_eq_ok.1 hd
  cases hd
  have hlength := p.length_removeOffset offset h.context
  have hcontext := modifyContext?_row offset horder
    (f := (· - p.removedOffset offset)) fun hzero x => by rw [hzero, Int32.sub_zero]
  have hfill := fill?_of_ok h.block (by rwa [List.length_reverse, hlength]) hn hextend
  have hdrop := drop_of_extend hextend
  have htaken : past.reverse = p.removeOffset offset h.context ++ (past.take n).reverse := by
    rw [← List.reverse_inj, List.reverse_append, List.reverse_reverse, List.reverse_reverse,
      ← hdrop, List.take_append_drop]
  have hsamples : (past.take n).reverse.length = n := by
    rw [List.length_reverse, List.length_take, Stream.length_of_extend hextend]
    exact Nat.min_eq_left (Nat.le_add_right _ _)
  rw [List.reverse_reverse, List.length_reverse, htaken, List.append_assoc] at hfill
  refine Access.bind_of_eq (weights?_eq p) (Access.bind_of_eq hcontext ?_)
  -- the new samples stand behind the context, and the offset is still missing from them
  have hback := ChannelHistory.addOffset?_row (h := { h with
      context := p.removeOffset offset h.context,
      block := (past.take n).reverse ++ h.block.drop n }) (n := n)
    (by rw [List.length_append, hsamples]; exact Nat.le_add_right _ _) (p.removedOffset offset)
  rw [ChannelHistory.current, List.take_left' hsamples, ChannelHistory.withBlock, List.length_map,
    hsamples, List.drop_left' hsamples] at hback
  refine Access.bind_of_eq hfill (Access.bind_of_eq hback ?_)
  rw [ChannelHistory.withBlock, List.length_map, hsamples]
  rfl

/-- **A block that cannot be read to its end leaves the context as it was.** -/
theorem decodeBlock?_of_error (horder : p.order ≤ h.context.length) (hn : n ≤ h.block.length)
    {e : ReadFault} (hd : p.decodeBlock h n parameter offset bias r = .error e) :
    ∃ block, block.length = h.block.length ∧
      p.decodeBlock? h.row n parameter offset bias r = some (.error e, { h with block }.row) := by
  rcases bind_eq_error.1 hd with hextend | ⟨⟨past, r₁⟩, -, hd⟩
  · have hlength := p.length_removeOffset offset h.context
    have hcontext := modifyContext?_row offset horder
      (f := (· - p.removedOffset offset)) fun hzero x => by rw [hzero, Int32.sub_zero]
    obtain ⟨block, hblock, hfill⟩ :=
      fill?_of_error h.block (by rwa [List.length_reverse, hlength]) hn hextend
    have hback := modifyContext?_row
      (h := { h with context := p.removeOffset offset h.context, block }) offset
      (by rwa [hlength]) (f := (· + p.removedOffset offset)) fun hzero x => by
        rw [hzero, Int32.add_zero]
    refine ⟨block, hblock, Access.bind_of_eq (weights?_eq p) (Access.bind_of_eq hcontext ?_)⟩
    rw [List.reverse_reverse, List.length_reverse] at hfill
    dsimp only at hback
    rw [hlength, add_removeOffset] at hback
    exact Access.bind_of_eq hfill (Access.bind_of_eq hback rfl)
  · cases hd

end Predictor

end LosslessAudio
