import Stemd.Semantics.TensorOps

/-! Sequences of rows inside a tensor, and what attends over them.

The last two axes of a tensor are a sequence of rows for each index of the others. Every
operation here is told of by what it makes of each sequence, as lists, so that chains of
them compose without an index in sight. -/

set_option autoImplicit false

namespace Stemd.Semantics

section

variable {K : Type}

def slot (width p : Nat) (values : List K) : List K := (values.drop (p * width)).take width

theorem slot_length {width m p : Nat} {values : List K} (length : values.length = m * width)
    (below : p < m) : (slot width p values).length = width := by
  have row : (p + 1) * width ≤ m * width := Nat.mul_le_mul_right _ below
  rw [Nat.succ_mul] at row
  rw [slot, List.length_take, List.length_drop, length]
  omega

theorem slot_getD (default : K) {width p t : Nat} (values : List K) (below : t < width) :
    (slot width p values).getD t default = values.getD (p * width + t) default := by
  simp [slot, List.getD_eq_getElem?_getD, below]

theorem getD_flatten (default : K) {width : Nat} {rows : List (List K)}
    (widths : ∀ values ∈ rows, values.length = width) {p t : Nat} (row : p < rows.length)
    (inside : t < width) :
    rows.flatten.getD (p * width + t) default = (rows.getD p []).getD t default := by
  induction rows generalizing p with
  | nil => cases row
  | cons values rows ih =>
      have first := widths values List.mem_cons_self
      rw [List.flatten_cons]
      cases p with
      | zero =>
          rw [Nat.zero_mul, Nat.zero_add, List.getD_append _ _ _ _ (first ▸ inside),
            List.getD_cons_zero]
      | succ p =>
          have place : (p + 1) * width + t - values.length = p * width + t := by
            rw [first, Nat.succ_mul]
            omega
          rw [List.getD_append_right _ _ _ _ (by rw [first, Nat.succ_mul]; omega), place,
            List.getD_cons_succ]
          exact ih (fun later member => widths later (List.mem_cons_of_mem _ member))
            (Nat.lt_of_succ_lt_succ row)

theorem sum_pairs [AddCommMonoid K] (f : Nat → K) (m : Nat) :
    ((List.range (2 * m)).map f).sum =
      ((List.range m).map fun p => f (2 * p) + f (2 * p + 1)).sum := by
  induction m with
  | zero => rfl
  | succ m ih =>
      have two : 2 * (m + 1) = 2 * m + 1 + 1 := by omega
      rw [two, List.range_succ, List.range_succ, List.range_succ]
      simp [ih, add_assoc]

def innerProduct [Zero K] [Add K] [Mul K] (a b : List K) : K :=
  ((List.range a.length).map fun k => a.getD k 0 * b.getD k 0).sum

def weighted [Zero K] [Add K] [Mul K] (weights : List K) (rows : List (List K)) (depth : Nat) :
    List K :=
  (List.range depth).map fun d =>
    ((List.range rows.length).map fun j => weights.getD j 0 * (rows.getD j []).getD d 0).sum

def attendRow [Zero K] [Add K] [Mul K] (softmax : List K → List K) (scale : K)
    (keys values : List (List K)) (depth : Nat) (query : List K) : List K :=
  weighted (softmax (keys.map fun key => innerProduct query key * scale)) values depth

theorem weighted_length [Zero K] [Add K] [Mul K] (weights : List K) (rows : List (List K))
    (depth : Nat) : (weighted weights rows depth).length = depth := by
  rw [weighted, List.length_map, List.length_range]

theorem attendRow_length [Zero K] [Add K] [Mul K] (softmax : List K → List K) (scale : K)
    (keys values : List (List K)) (depth : Nat) (query : List K) :
    (attendRow softmax scale keys values depth query).length = depth :=
  weighted_length _ _ _

end

namespace Tensor

variable {K : Type} [Zero K]

/-- The rows along the last axis but one. -/
def seq (x : Tensor K) (index : List Nat) : List (List K) :=
  (List.range (x.shape.dropLast.getLastD 0)).map fun n => x.row (index ++ [n])

theorem seq_eq {x : Tensor K} (lead : List Nat) (n d : Nat) (shape : x.shape = lead ++ [n, d])
    (index : List Nat) : x.seq index = (List.range n).map fun m => x.row (index ++ [m]) := by
  have last : x.shape.dropLast = lead ++ [n] := by
    rw [shape, show lead ++ [n, d] = (lead ++ [n]) ++ [d] by simp, List.dropLast_concat]
  rw [seq, last, List.getLastD_concat]

theorem seq_length {x : Tensor K} (lead : List Nat) (n d : Nat)
    (shape : x.shape = lead ++ [n, d]) (index : List Nat) : (x.seq index).length = n := by
  rw [seq_eq lead n d shape, List.length_map, List.length_range]

theorem seq_getD {x : Tensor K} (lead : List Nat) (n d : Nat) (shape : x.shape = lead ++ [n, d])
    (index : List Nat) {m : Nat} (below : m < n) :
    (x.seq index).getD m [] = x.row (index ++ [m]) := by
  rw [seq_eq lead n d shape, List.getD_eq_getElem _ _ (by simpa using below), List.getElem_map,
    List.getElem_range]

theorem row_getD {x : Tensor K} (lead : List Nat) (d : Nat) (shape : x.shape = lead ++ [d])
    (index : List Nat) {t : Nat} (below : t < d) :
    (x.row index).getD t 0 = x.get (index ++ [t]) := by
  rw [row_eq lead d shape, List.getD_eq_getElem _ _ (by simpa using below), List.getElem_map,
    List.getElem_range]

theorem row_eq_of {x : Tensor K} (lead : List Nat) (d : Nat) (shape : x.shape = lead ++ [d])
    {index : List Nat} {values : List K} (length : values.length = d)
    (entry : ∀ t < d, x.get (index ++ [t]) = values.getD t 0) : x.row index = values := by
  rw [row_eq lead d shape]
  apply List.ext_getElem (by rw [List.length_map, List.length_range, length])
  intro t left right
  rw [List.getElem_map, List.getElem_range, entry t (by simpa using left),
    List.getD_eq_getElem _ _ right]

theorem row_vector {x : Tensor K} {d : Nat} (shape : x.shape = [d]) : x.row [] = x.data := by
  have length : x.data.length = d := by rw [x.size, shape, List.prod_singleton]
  apply row_eq_of [] d shape length
  intro t _
  rw [List.nil_append, get, shape]
  simp [position]

theorem seq_eq_map {x : Tensor K} (lead : List Nat) (n d : Nat)
    (shape : x.shape = lead ++ [n, d]) {index : List Nat} (f : Nat → List K)
    (rows : ∀ m < n, x.row (index ++ [m]) = f m) : x.seq index = (List.range n).map f := by
  rw [seq_eq lead n d shape]
  exact List.map_congr_left fun m member => rows m (List.mem_range.mp member)

theorem seq_of_rows {L : Type} [Zero L] {x : Tensor K} {y : Tensor L} (lead : List Nat)
    (n d d' : Nat) (left : x.shape = lead ++ [n, d]) (right : y.shape = lead ++ [n, d'])
    {f : List K → List L} (rows : ∀ i, Within i (lead ++ [n]) → y.row i = f (x.row i))
    {i : List Nat} (outer : Within i lead) : y.seq i = (x.seq i).map f := by
  rw [seq_eq lead n d left, List.map_map]
  apply seq_eq_map lead n d' right
  intro m below
  exact rows _ (within_append outer (.cons below .nil))

theorem seq_of_places {L : Type} [Zero L] {x : Tensor K} {y : Tensor L} (lead : List Nat)
    (n d d' : Nat) (left : x.shape = lead ++ [n, d]) (right : y.shape = lead ++ [n, d'])
    {i : List Nat} {f : Nat → List K → List L}
    (rows : ∀ m < n, y.row (i ++ [m]) = f m (x.row (i ++ [m]))) :
    y.seq i = (x.seq i).mapIdx f := by
  rw [seq_eq_map lead n d' right _ rows, seq_eq lead n d left]
  apply List.ext_getElem (by simp)
  intro m before after
  simp

theorem ext_seq {x y : Tensor K} (lead : List Nat) (n d : Nat) (left : x.shape = lead ++ [n, d])
    (right : y.shape = lead ++ [n, d]) (same : ∀ i, Within i lead → x.seq i = y.seq i) :
    x = y := by
  apply ext_get (left.trans right.symm)
  intro index within
  rw [left] at within
  obtain ⟨i, rest, rfl, outer, inner⟩ := within_split within
  obtain ⟨m, t, rfl, row, below⟩ := within_two inner
  have left' : x.shape = (lead ++ [n]) ++ [d] := by rw [left]; simp
  have right' : y.shape = (lead ++ [n]) ++ [d] := by rw [right]; simp
  have here : x.row (i ++ [m]) = y.row (i ++ [m]) := by
    rw [← seq_getD lead n d left i row, ← seq_getD lead n d right i row, same i outer]
  have entry := congrArg (fun values : List K => values.getD t 0) here
  rw [row_getD _ d left' _ below, row_getD _ d right' _ below] at entry
  simpa using entry

theorem mapRows_row {L : Type} [Zero L] {x : Tensor K} (lead : List Nat) (dim : Nat)
    (shape : x.shape = lead ++ [dim]) (width : Nat) (f : List K → List L)
    (length : ∀ i, Within i lead → (f (x.row i)).length = width) :
    (x.mapRows width f).shape = lead ++ [width] ∧
      ∀ i, Within i lead → (x.mapRows width f).row i = f (x.row i) := by
  obtain ⟨changed, entry⟩ := mapRows_spec lead dim shape width f
  refine ⟨changed, fun i outer => ?_⟩
  exact row_eq_of lead width changed (length i outer) fun t below => entry i t outer below

theorem row_map {L : Type} [Zero L] (f : K → L) {x : Tensor K} (lead : List Nat) (dim : Nat)
    (shape : x.shape = lead ++ [dim]) {i : List Nat} (outer : Within i lead) :
    (x.map f).row i = (x.row i).map f := by
  apply row_eq_of lead dim (show (x.map f).shape = lead ++ [dim] from shape)
    (by rw [List.length_map, row_length lead dim shape])
  intro t below
  have here : Within (i ++ [t]) x.shape := shape ▸ within_append outer (.cons below .nil)
  have inside : t < (x.row i).length := by rwa [row_length lead dim shape]
  rw [get_map f here, List.getD_eq_getElem _ _ (by rwa [List.length_map]), List.getElem_map,
    ← row_getD lead dim shape i below, List.getD_eq_getElem _ _ inside]

theorem row_zipWith {L M : Type} [Zero L] [Zero M] (f : K → L → M) {x : Tensor K} {y : Tensor L}
    (lead : List Nat) (dim : Nat) (shape : x.shape = lead ++ [dim]) (same : y.shape = x.shape) :
    ∃ z, x.zipWith f y = some z ∧ z.shape = lead ++ [dim] ∧
      ∀ i, Within i lead → z.row i = List.zipWith f (x.row i) (y.row i) := by
  obtain ⟨z, zipped, zShape, entry⟩ := zipWith_self_spec f same
  have left := row_length lead dim shape
  have right := row_length lead dim (same.trans shape)
  refine ⟨z, zipped, zShape.trans shape, fun i outer => ?_⟩
  apply row_eq_of lead dim (zShape.trans shape) (by rw [List.length_zipWith, left, right, min_self])
  intro t below
  have here : Within (i ++ [t]) x.shape := shape ▸ within_append outer (.cons below .nil)
  rw [entry _ here, ← row_getD lead dim shape i below,
    ← row_getD lead dim (same.trans shape) i below,
    List.getD_eq_getElem _ _ (show t < (x.row i).length by rwa [left]),
    List.getD_eq_getElem _ _ (show t < (y.row i).length by rwa [right]),
    List.getD_eq_getElem _ _ (by rwa [List.length_zipWith, left, right, min_self]),
    List.getElem_zipWith]

theorem seq_zipWith {L M : Type} [Zero L] [Zero M] (f : K → L → M) {x : Tensor K} {y : Tensor L}
    (lead : List Nat) (n d : Nat) (shape : x.shape = lead ++ [n, d]) (same : y.shape = x.shape) :
    ∃ z, x.zipWith f y = some z ∧ z.shape = lead ++ [n, d] ∧
      ∀ i, Within i lead → z.seq i = List.zipWith (List.zipWith f) (x.seq i) (y.seq i) := by
  have shape' : x.shape = (lead ++ [n]) ++ [d] := by rw [shape]; simp
  obtain ⟨z, zipped, zShape, rows⟩ := row_zipWith f (lead ++ [n]) d shape' same
  have zShape' : z.shape = lead ++ [n, d] := by rw [zShape]; simp
  refine ⟨z, zipped, zShape', fun i outer => ?_⟩
  rw [seq_eq lead n d zShape', seq_eq lead n d shape, seq_eq lead n d (same.trans shape)]
  apply List.ext_getElem (by simp)
  intro m before _
  have below : m < n := by simpa using before
  simp only [List.getElem_map, List.getElem_zipWith, List.getElem_range]
  exact rows _ (within_append outer (.cons below .nil))

omit [Zero K] in
theorem reshape_trans {x y : Tensor K} {middle : List Nat} (first : x.reshape middle = some y)
    (last : List Nat) : x.reshape last = y.reshape last := by
  unfold reshape at first
  split at first
  · next same =>
      cases first
      by_cases whole : last.prod = x.shape.prod
      · rw [reshape, reshape, dif_pos whole, dif_pos (whole.trans same.symm)]
      · rw [reshape, reshape, dif_neg whole, dif_neg fun fits => whole (fits.trans same)]
  · cases first

theorem splitLast_spec {x : Tensor K} (lead : List Nat) (m n : Nat)
    (shape : x.shape = lead ++ [m * n]) :
    ∃ y, x.reshape (lead ++ [m, n]) = some y ∧ y.shape = lead ++ [m, n] ∧
      ∀ i p, Within i lead → p < m → y.row (i ++ [p]) = slot n p (x.row i) := by
  obtain ⟨y, reshaped, yShape, entry⟩ := splitAxis_spec lead m n [] shape
  refine ⟨y, reshaped, yShape, fun i p outer below => ?_⟩
  have yShape' : y.shape = (lead ++ [m]) ++ [n] := by rw [yShape]; simp
  apply row_eq_of (lead ++ [m]) n yShape' (slot_length (row_length lead _ shape i) below)
  intro t inside
  have place : p * n + t < m * n := by
    have row : (p + 1) * n ≤ m * n := Nat.mul_le_mul_right _ below
    rw [Nat.succ_mul] at row
    omega
  rw [slot_getD 0 _ inside, row_getD lead _ shape i place, List.append_assoc]
  exact entry i p t [] outer.length_eq

theorem mergeLast_spec {x : Tensor K} (lead : List Nat) (m n : Nat)
    (shape : x.shape = lead ++ [m, n]) :
    ∃ y, x.reshape (lead ++ [m * n]) = some y ∧ y.shape = lead ++ [m * n] ∧
      ∀ i, Within i lead → y.row i = (x.seq i).flatten := by
  obtain ⟨y, reshaped, yShape, entry⟩ := mergeAxes_spec lead m n [] shape
  have rows : ∀ i, ∀ values ∈ x.seq i, values.length = n := by
    intro i values member
    rw [seq_eq lead m n shape] at member
    obtain ⟨p, -, rfl⟩ := List.mem_map.mp member
    exact row_length (lead ++ [m]) n (by rw [shape]; simp) _
  refine ⟨y, reshaped, yShape, fun i outer => ?_⟩
  have total : (x.seq i).flatten.length = m * n := by
    rw [List.length_flatten, List.map_congr_left (rows i), List.map_const', List.sum_replicate_nat,
      seq_length lead m n shape]
  apply row_eq_of lead (m * n) yShape total
  intro t below
  have positive : 0 < n := by
    apply Nat.pos_of_ne_zero
    rintro rfl
    simp at below
  have part : t / n < m := Nat.div_lt_of_lt_mul (by rwa [Nat.mul_comm])
  have inside := Nat.mod_lt t positive
  have split : t / n * n + t % n = t := Nat.div_add_mod' t n
  have here := entry i (t / n) (t % n) [] outer.length_eq
  have laid := getD_flatten 0 (rows i) (p := t / n) (by rwa [seq_length lead m n shape]) inside
  rw [split] at here laid
  rw [laid, here, seq_getD lead m n shape i part,
    row_getD (lead ++ [m]) n (by rw [shape]; simp) _ inside, List.append_assoc]
  rfl

theorem splitHeads_spec {x : Tensor K} {B N H D : Nat} (shape : x.shape = [B, N, H * D]) :
    ∃ apart y, x.reshape [B, N, H, D] = some apart ∧ apart.transposeAxes [0, 2, 1, 3] = some y ∧
      y.shape = [B, H, N, D] ∧ ∀ b h, b < B → h < H →
        y.seq [b, h] = (x.seq [b]).map (slot D h) := by
  obtain ⟨apart, reshaped, apartShape, parts⟩ := splitLast_spec [B, N] H D shape
  obtain ⟨y, transposed, yShape, entry⟩ := transposeMiddle_spec apartShape
  refine ⟨apart, y, reshaped, transposed, yShape, fun b h item head => ?_⟩
  rw [seq_eq [B] N (H * D) shape, List.map_map]
  apply seq_eq_map [B, H] N D yShape
  intro n token
  have here : Within [b, n] [B, N] := .cons item (.cons token .nil)
  refine (row_eq_of [B, H, N] D yShape (row_length [B, N, H] D apartShape [b, n, h]) ?_).trans
    (parts [b, n] h here head)
  intro t below
  rw [row_getD [B, N, H] D apartShape _ below]
  exact entry b n h t item token head below

theorem mergeHeads_spec {x : Tensor K} {B H N D : Nat} (shape : x.shape = [B, H, N, D]) :
    ∃ turned y, x.transposeAxes [0, 2, 1, 3] = some turned ∧ turned.reshape [B, N, H * D] = some y ∧
      y.shape = [B, N, H * D] ∧ ∀ b, b < B → y.seq [b] = (List.range N).map fun n =>
        ((List.range H).map fun h => (x.seq [b, h]).getD n []).flatten := by
  obtain ⟨turned, transposed, turnedShape, entry⟩ := transposeMiddle_spec shape
  obtain ⟨y, reshaped, yShape, rows⟩ := mergeLast_spec [B, N] H D turnedShape
  refine ⟨turned, y, transposed, reshaped, yShape, fun b item => ?_⟩
  apply seq_eq_map [B] N (H * D) yShape
  intro n token
  have here : Within [b, n] [B, N] := .cons item (.cons token .nil)
  refine (rows [b, n] here).trans (congrArg List.flatten ?_)
  apply seq_eq_map [B, N] H D turnedShape
  intro h head
  rw [seq_getD [B, H] N D shape _ token]
  apply row_eq_of [B, N, H] D turnedShape (row_length [B, H, N] D shape _)
  intro t below
  exact (entry b h n t item head token below).trans
    (row_getD [B, H, N] D shape [b, h, n] below).symm

def bmm [Add K] [Mul K] (x w : Tensor K) : Option (Tensor K) :=
  match x.shape.reverse, w.shape.reverse with
  | chin :: rows :: lead, chout :: height :: lead' =>
      if height = chin ∧ lead' = lead then
        some (build (lead.reverse ++ [rows, chout]) fun index =>
          ((List.range chin).map fun k => x.get (index.dropLast ++ [k]) *
            w.get (index.dropLast.dropLast ++ [k, index.getLastD 0])).sum)
      else none
  | _, _ => none

theorem bmm_spec [Add K] [Mul K] {x w : Tensor K} (lead : List Nat) {n c o : Nat}
    (left : x.shape = lead ++ [n, c]) (right : w.shape = lead ++ [c, o]) :
    ∃ y, x.bmm w = some y ∧ y.shape = lead ++ [n, o] ∧
      ∀ i m p, Within i lead → m < n → p < o → y.get (i ++ [m, p]) =
        ((List.range c).map fun k => x.get (i ++ [m, k]) * w.get (i ++ [k, p])).sum := by
  have turned : x.shape.reverse = c :: n :: lead.reverse := by rw [left]; simp
  have turned' : w.shape.reverse = o :: c :: lead.reverse := by rw [right]; simp
  have back : lead.reverse.reverse ++ [n, o] = lead ++ [n, o] := by rw [List.reverse_reverse]
  have is : x.bmm w = some (build (lead.reverse.reverse ++ [n, o]) fun index =>
      ((List.range c).map fun k => x.get (index.dropLast ++ [k]) *
        w.get (index.dropLast.dropLast ++ [k, index.getLastD 0])).sum) := by
    rw [bmm, turned, turned']
    exact if_pos ⟨rfl, rfl⟩
  refine ⟨_, is, back, fun i m p outer row below => ?_⟩
  have within : Within (i ++ [m, p]) (lead.reverse.reverse ++ [n, o]) :=
    back.symm ▸ within_append outer (.cons row (.cons below .nil))
  have ends : i ++ [m, p] = (i ++ [m]) ++ [p] := by simp
  rw [get_build _ within, ends, List.dropLast_concat, List.dropLast_concat, List.getLastD_concat]
  simp

/-- `softmax(q * k^T * scale) * v`, one attention for each index of the leading axes. -/
def attend [Add K] [Mul K] (softmax : List K → List K) (scale : K) (q k v : Tensor K) :
    Option (Tensor K) := do
  let turned ← k.swapAxes (k.shape.length - 2) (k.shape.length - 1)
  let scores ← q.bmm turned
  let scaled := scores.map (· * scale)
  (scaled.mapRows (scaled.shape.getLastD 0) softmax).bmm v

/-- Every query attends over the sequence of keys and values at its own index. -/
theorem attend_spec [Add K] [Mul K] {softmax : List K → List K}
    (lengths : ∀ values, (softmax values).length = values.length) (scale : K)
    {q k v : Tensor K} (lead : List Nat) {n m c d : Nat} (queries : q.shape = lead ++ [n, c])
    (keys : k.shape = lead ++ [m, c]) (values : v.shape = lead ++ [m, d]) :
    ∃ y, attend softmax scale q k v = some y ∧ y.shape = lead ++ [n, d] ∧
      ∀ i, Within i lead →
        y.seq i = (q.seq i).map (attendRow softmax scale (k.seq i) (v.seq i) d) := by
  obtain ⟨turned, swapped, turnedShape, turnedEntry⟩ := swapLast_spec lead m c keys
  obtain ⟨scores, multiplied, scoresShape, scoresEntry⟩ := bmm_spec lead queries turnedShape
  have scaledShape : (scores.map (· * scale)).shape = (lead ++ [n]) ++ [m] := by
    rw [map_shape, scoresShape]
    simp
  obtain ⟨softShape, softRow⟩ := mapRows_row (lead ++ [n]) m scaledShape m softmax fun i _ => by
    rw [lengths, row_length _ m scaledShape]
  have softShape' : ((scores.map (· * scale)).mapRows m softmax).shape = lead ++ [n, m] := by
    rw [softShape]
    simp
  obtain ⟨y, mixed, yShape, yEntry⟩ := bmm_spec lead softShape' values
  refine ⟨y, ?_, yShape, fun i outer => ?_⟩
  · have axis : (lead ++ [m, c]).length - 2 = lead.length := by simp
    have axis' : (lead ++ [m, c]).length - 1 = lead.length + 1 := by simp
    have last : ((lead ++ [n]) ++ [m]).getLastD 0 = m := List.getLastD_concat
    simp only [attend, keys, axis, axis', swapped, multiplied, scaledShape, last, mixed, bind,
      Option.bind]
  · rw [seq_eq lead n c queries, List.map_map]
    apply seq_eq_map lead n d yShape
    intro p token
    have here : Within (i ++ [p]) (lead ++ [n]) := within_append outer (.cons token .nil)
    -- The scores of a query are its products with the keys.
    have scored : (scores.map (· * scale)).row (i ++ [p]) =
        (k.seq i).map fun key => innerProduct (q.row (i ++ [p])) key * scale := by
      rw [seq_eq lead m c keys, List.map_map]
      have scoresShape' : scores.shape = (lead ++ [n]) ++ [m] := by rw [scoresShape]; simp
      rw [row_map _ (lead ++ [n]) m scoresShape' here, row_eq (lead ++ [n]) m scoresShape',
        List.map_map]
      apply List.map_congr_left
      intro j member
      have key := List.mem_range.mp member
      have entry := scoresEntry i p j outer token key
      simp only [Function.comp_apply, List.append_assoc, List.singleton_append]
      rw [entry, innerProduct, row_length (lead ++ [n]) c (by rw [queries]; simp)]
      congr 2
      apply List.map_congr_left
      intro t member
      have depth := List.mem_range.mp member
      rw [row_getD (lead ++ [n]) c (by rw [queries]; simp) _ depth,
        row_getD (lead ++ [m]) c (by rw [keys]; simp) _ depth, turnedEntry i t j outer depth key]
      simp
    have weights := softRow (i ++ [p]) here
    rw [scored] at weights
    apply row_eq_of (lead ++ [n]) d (by rw [yShape]; simp) (attendRow_length _ _ _ _ _ _)
    intro t below
    have entry := yEntry i p t outer token below
    rw [List.append_assoc, List.singleton_append, entry, attendRow, weighted,
      List.getD_eq_getElem _ _ (by simpa using below), List.getElem_map, List.getElem_range,
      seq_length lead m d values]
    congr 1
    apply List.map_congr_left
    intro j member
    have key := List.mem_range.mp member
    rw [← weights, row_getD (lead ++ [n]) m (by rw [softShape']; simp) _ key,
      seq_getD lead m d values i key, row_getD (lead ++ [m]) d (by rw [values]; simp) _ below]
    simp

def mapTokens {L : Type} [Zero L] (width : Nat) (f : Nat → List K → List L) (x : Tensor K) :
    Tensor L :=
  build (x.shape.dropLast ++ [width]) fun index =>
    (f (index.dropLast.getLastD 0) (x.row index.dropLast)).getD (index.getLastD 0) 0

theorem mapTokens_spec {L : Type} [Zero L] {x : Tensor K} (lead : List Nat) (n d : Nat)
    (shape : x.shape = lead ++ [n, d]) (width : Nat) (f : Nat → List K → List L)
    (length : ∀ m values, values.length = d → (f m values).length = width) :
    (x.mapTokens width f).shape = lead ++ [n, width] ∧
      ∀ i, Within i lead → (x.mapTokens width f).seq i = (x.seq i).mapIdx f := by
  have shape' : x.shape = (lead ++ [n]) ++ [d] := by rw [shape]; simp
  have changed : x.shape.dropLast ++ [width] = lead ++ [n, width] := by
    rw [shape', List.dropLast_concat]
    simp
  refine ⟨changed, fun i outer => seq_of_places lead n d width shape changed fun m token => ?_⟩
  have width' : (f m (x.row (i ++ [m]))).length = width :=
    length m _ (row_length (lead ++ [n]) d shape' _)
  apply row_eq_of (lead ++ [n]) width (changed.trans (by simp)) width'
  intro t below
  have within : Within ((i ++ [m]) ++ [t]) (x.shape.dropLast ++ [width]) := by
    rw [changed, List.append_assoc]
    exact within_append outer (.cons token (.cons below .nil))
  rw [mapTokens, get_build _ within, List.dropLast_concat, List.getLastD_concat,
    List.getLastD_concat]

theorem stretch_append (dims lead : List Nat) : stretch (dims ++ lead) dims = some (dims ++ lead) := by
  induction dims with
  | nil =>
      cases lead <;> rfl
  | cons dim dims ih => simp [stretch, ih]

theorem broadcast_tail (lead dims : List Nat) :
    broadcast (lead ++ dims) dims = some (lead ++ dims) := by
  rw [broadcast, List.reverse_append, stretch_append, Option.map_some, ← List.reverse_append,
    List.reverse_reverse]

theorem align_tail {dims rest : List Nat} (index : List Nat) (within : Within rest dims) :
    align dims (index ++ rest) = rest := by
  rw [align_append index within.length_eq, align_self within]

theorem row_zipWith_tail {L M : Type} [Zero L] [Zero M] (f : K → L → M) {x : Tensor K}
    {y : Tensor L} (lead tail : List Nat) (d : Nat) (left : x.shape = lead ++ tail ++ [d])
    (right : y.shape = tail ++ [d]) :
    ∃ z, x.zipWith f y = some z ∧ z.shape = lead ++ tail ++ [d] ∧
      ∀ i j, Within i lead → Within j tail →
        z.row (i ++ j) = List.zipWith f (x.row (i ++ j)) (y.row j) := by
  have fits : broadcast x.shape y.shape = some (lead ++ tail ++ [d]) := by
    rw [left, right, List.append_assoc]
    exact broadcast_tail lead (tail ++ [d])
  obtain ⟨z, zipped, zShape, entry⟩ := zipWith_spec f fits
  refine ⟨z, zipped, zShape, fun i j outer inner => ?_⟩
  have leftLength := row_length (lead ++ tail) d left (i ++ j)
  have rightLength := row_length tail d right j
  apply row_eq_of (lead ++ tail) d zShape
    (by rw [List.length_zipWith, leftLength, rightLength, min_self])
  intro t below
  have here : Within (i ++ j ++ [t]) (lead ++ tail ++ [d]) :=
    within_append (within_append outer inner) (.cons below .nil)
  have aligned : align (tail ++ [d]) (i ++ j ++ [t]) = j ++ [t] := by
    rw [List.append_assoc]
    exact align_tail i (within_append inner (.cons below .nil))
  rw [entry _ here, left, right, align_self here, aligned, ← row_getD (lead ++ tail) d left _ below,
    ← row_getD tail d right _ below,
    List.getD_eq_getElem _ _ (show t < (x.row (i ++ j)).length by rwa [leftLength]),
    List.getD_eq_getElem _ _ (show t < (y.row j).length by rwa [rightLength]),
    List.getD_eq_getElem _ _ (by rwa [List.length_zipWith, leftLength, rightLength, min_self]),
    List.getElem_zipWith]

theorem stretch_one_right (a : Nat) (left right : List Nat) :
    stretch (a :: left) (1 :: right) = (stretch left right).map (a :: ·) := by
  rw [stretch, if_pos (.inr rfl)]

theorem stretch_one_left (b : Nat) (left right : List Nat) :
    stretch (1 :: left) (b :: right) = (stretch left right).map (b :: ·) := by
  rw [stretch]
  by_cases one : 1 = b ∨ b = 1
  · have : b = 1 := one.elim Eq.symm id
    rw [if_pos one, this]
  · rw [if_neg one, if_pos rfl]

theorem stretch_same (a : Nat) (left right : List Nat) :
    stretch (a :: left) (a :: right) = (stretch left right).map (a :: ·) := by
  rw [stretch, if_pos (.inl rfl)]

theorem align_here {dim t : Nat} (below : t < dim) : (if dim = 1 then 0 else t) = t := by
  split <;> omega

theorem stackLast_spec {x y : Tensor K} (lead : List Nat) (d : Nat) (left : x.shape = lead ++ [d])
    (right : y.shape = lead ++ [d]) :
    ∃ stacked z, stackAxis [x, y] (lead.length + 1) = some stacked ∧
      stacked.shape = lead ++ [d, 2] ∧ stacked.reshape (lead ++ [d * 2]) = some z ∧
      z.shape = lead ++ [d * 2] ∧ ∀ i, Within i lead →
        z.row i = (List.zipWith (fun a b => [a, b]) (x.row i) (y.row i)).flatten := by
  have shapes : ∀ part ∈ [x, y], part.shape = (lead ++ [d]) ++ [] := by
    simp [left, right]
  obtain ⟨stacked, stacking, stackedShape, entry⟩ :=
    stackAxis_spec (lead ++ [d]) [] (by simp) shapes
  have stackedShape' : stacked.shape = lead ++ [d, 2] := by rw [stackedShape]; simp
  obtain ⟨z, reshaped, zShape, rows⟩ := mergeLast_spec lead d 2 stackedShape'
  refine ⟨stacked, z, by simpa using stacking, stackedShape', reshaped, zShape,
    fun i outer => ?_⟩
  have leftLength := row_length lead d left i
  have rightLength := row_length lead d right i
  rw [rows i outer, seq_eq lead d 2 stackedShape']
  congr 1
  apply List.ext_getElem (by simp [leftLength, rightLength])
  intro t below _
  have inside : t < d := by simpa using below
  have here : Within (i ++ [t]) (lead ++ [d]) := within_append outer (.cons inside .nil)
  rw [List.getElem_map, List.getElem_range, List.getElem_zipWith]
  apply row_eq_of (lead ++ [d]) 2 stackedShape rfl
  intro part small
  have leftBound : t < (x.row i).length := by rwa [leftLength]
  have rightBound : t < (y.row i).length := by rwa [rightLength]
  have first : x.get (i ++ [t]) = (x.row i)[t] := by
    rw [← row_getD lead d left i inside, List.getD_eq_getElem _ _ leftBound]
  have second : y.get (i ++ [t]) = (y.row i)[t] := by
    rw [← row_getD lead d right i inside, List.getD_eq_getElem _ _ rightBound]
  match part, small with
  | 0, _ => simpa [first] using entry 0 x rfl (i ++ [t]) [] here .nil
  | 1, _ => simpa [second] using entry 1 y rfl (i ++ [t]) [] here .nil

theorem foldLead_spec {x : Tensor K} (a c n d : Nat) (shape : x.shape = [a, c, n, d]) :
    ∃ y, x.reshape [a * c, n, d] = some y ∧ y.shape = [a * c, n, d] ∧
      ∀ i j, j < c → y.seq [i * c + j] = x.seq [i, j] := by
  obtain ⟨y, reshaped, yShape, entry⟩ := mergeAxes_spec [] a c [n, d] shape
  refine ⟨y, reshaped, yShape, fun i j _ => ?_⟩
  rw [seq_eq [a, c] n d shape]
  apply seq_eq_map [a * c] n d yShape
  intro m _
  apply row_eq_of [a * c, n] d yShape (row_length [a, c, n] d shape _)
  intro t below
  rw [row_getD [a, c, n] d shape _ below]
  exact entry [] i j [m, t] rfl

theorem unfoldLead_spec {x : Tensor K} (a c n d : Nat) (shape : x.shape = [a * c, n, d]) :
    ∃ y, x.reshape [a, c, n, d] = some y ∧ y.shape = [a, c, n, d] ∧
      ∀ i j, j < c → y.seq [i, j] = x.seq [i * c + j] := by
  obtain ⟨y, reshaped, yShape, entry⟩ := splitAxis_spec [] a c [n, d] shape
  refine ⟨y, reshaped, yShape, fun i j _ => ?_⟩
  rw [seq_eq [a * c] n d shape]
  apply seq_eq_map [a, c] n d yShape
  intro m _
  apply row_eq_of [a, c, n] d yShape (row_length [a * c, n] d shape _)
  intro t below
  rw [row_getD [a * c, n] d shape _ below]
  exact entry [] i j [m, t] rfl

def grid (x : Tensor K) (index : List Nat) : List (List (List K)) :=
  (List.range (x.shape.dropLast.dropLast.getLastD 0)).map fun n => x.seq (index ++ [n])

theorem grid_eq {x : Tensor K} (lead : List Nat) (m n d : Nat)
    (shape : x.shape = lead ++ [m, n, d]) (index : List Nat) :
    x.grid index = (List.range m).map fun p => x.seq (index ++ [p]) := by
  have last : x.shape.dropLast.dropLast = lead ++ [m] := by
    rw [shape, show lead ++ [m, n, d] = ((lead ++ [m]) ++ [n]) ++ [d] by simp,
      List.dropLast_concat, List.dropLast_concat]
  rw [grid, last, List.getLastD_concat]

def columns (wide : Nat) (g : List (List (List K))) : List (List (List K)) :=
  (List.range wide).map fun k => g.map fun line => line.getD k []

/-- Exchanging the two axes of a grid makes its columns its lines. -/
theorem transposeMiddle_grid {x : Tensor K} {b m n d : Nat} (shape : x.shape = [b, m, n, d]) :
    ∃ y, x.transposeAxes [0, 2, 1, 3] = some y ∧ y.shape = [b, n, m, d] ∧
      ∀ i < b, y.grid [i] = columns n (x.grid [i]) := by
  obtain ⟨y, transposed, yShape, entry⟩ := transposeMiddle_spec shape
  refine ⟨y, transposed, yShape, fun i item => ?_⟩
  rw [grid_eq [b] n m d yShape, grid_eq [b] m n d shape, columns]
  apply List.map_congr_left
  intro k member
  have column := List.mem_range.mp member
  rw [List.map_map]
  apply seq_eq_map [b, n] m d yShape
  intro p line
  change y.row [i, k, p] = (x.seq [i, p]).getD k []
  rw [seq_getD [b, m] n d shape _ column]
  apply row_eq_of [b, n, m] d yShape (row_length [b, m, n] d shape _)
  intro t below
  rw [row_getD [b, m, n] d shape _ below]
  exact entry i p k t item line column below

theorem grid_of_seqs {L : Type} [Zero L] {x : Tensor K} {y : Tensor L} (lead : List Nat)
    (m n d d' : Nat) (left : x.shape = lead ++ [m, n, d]) (right : y.shape = lead ++ [m, n, d'])
    {f : List (List K) → List (List L)} {i : List Nat}
    (seqs : ∀ p < m, y.seq (i ++ [p]) = f (x.seq (i ++ [p]))) : y.grid i = (x.grid i).map f := by
  rw [grid_eq lead m n d' right, grid_eq lead m n d left, List.map_map]
  exact List.map_congr_left fun p member => seqs p (List.mem_range.mp member)

/-- `mean_axes`, over some axes that are kept at length one. -/
def meanAxes [Add K] [Div K] [NatCast K] (x : Tensor K) (axes : List Nat) : Tensor K :=
  let reduced := x.shape.mapIdx fun axis dim => if axis ∈ axes then dim else 1
  build (x.shape.mapIdx fun axis dim => if axis ∈ axes then 1 else dim) fun index =>
    ((List.range reduced.prod).map fun n =>
      x.get (List.zipWith (· + ·) index (indexAt reduced n))).sum / (reduced.prod : K)

theorem meanAxes_shape [Add K] [Div K] [NatCast K] (x : Tensor K) (axes : List Nat) :
    (x.meanAxes axes).shape = x.shape.mapIdx fun axis dim => if axis ∈ axes then 1 else dim := rfl

/-- Item `b` of one tensor holds what item `b'` of another does. -/
def Alike (rest : List Nat) (x : Tensor K) (b : Nat) (y : Tensor K) (b' : Nat) : Prop :=
  ∀ j, Within j rest → x.get (b :: j) = y.get (b' :: j)

theorem Alike.row {x y : Tensor K} {B B' b b' d : Nat} (lead : List Nat)
    (alike : Alike (lead ++ [d]) x b y b') (left : x.shape = B :: lead ++ [d])
    (right : y.shape = B' :: lead ++ [d]) {i : List Nat} (outer : Within i lead) :
    x.row (b :: i) = y.row (b' :: i) := by
  apply row_eq_of (B :: lead) d left (row_length (B' :: lead) d right _)
  intro t below
  rw [row_getD (B' :: lead) d right _ below]
  exact alike (i ++ [t]) (within_append outer (.cons below .nil))

theorem Alike.grid {x y : Tensor K} {B B' b b' m n d : Nat} (alike : Alike [m, n, d] x b y b')
    (left : x.shape = [B, m, n, d]) (right : y.shape = [B', m, n, d]) :
    x.grid [b] = y.grid [b'] := by
  rw [grid_eq [B] m n d left, grid_eq [B'] m n d right]
  apply List.map_congr_left
  intro p member
  have line := List.mem_range.mp member
  rw [seq_eq [B', m] n d right]
  apply seq_eq_map [B, m] n d left
  intro k token
  exact alike.row [m, n] left right (.cons line (.cons token .nil))

theorem alike_of_grid {x y : Tensor K} {B B' b b' m n d : Nat} (left : x.shape = [B, m, n, d])
    (right : y.shape = [B', m, n, d]) (same : x.grid [b] = y.grid [b']) :
    Alike [m, n, d] x b y b' := by
  intro j within
  obtain ⟨p, k, t, rfl, line, token, below⟩ := within_three within
  rw [grid_eq [B] m n d left, grid_eq [B'] m n d right] at same
  have lines : x.seq [b, p] = y.seq [b', p] :=
    List.map_inj_left.mp same p (List.mem_range.mpr line)
  have rows := congrArg (fun s : List (List K) => (s.getD k []).getD t 0) lines
  simp only [seq_getD [B, m] n d left _ token, seq_getD [B', m] n d right _ token] at rows
  rw [row_getD [B, m, n] d left _ below, row_getD [B', m, n] d right _ below] at rows
  exact rows

theorem alike_iff_select {x y : Tensor K} {B B' b b' : Nat} {rest : List Nat}
    (left : x.shape = B :: rest) (right : y.shape = B' :: rest) (item : b < B) (item' : b' < B') :
    Alike rest x b y b' ↔ x.select 0 b = y.select 0 b' := by
  obtain ⟨slice, selected, sliceShape, entry⟩ := select_spec [] B' rest right item'
  have reads := select_eq_some_iff [] B rest left item sliceShape
  rw [show y.select 0 b' = some slice from selected]
  constructor
  · intro alike
    refine reads.mpr fun i j outer inner => ?_
    cases outer
    exact (alike j inner).trans (entry [] j .nil inner).symm
  · intro is j within
    exact (reads.mp is [] j .nil within).trans (entry [] j .nil within)

end Tensor

end Stemd.Semantics
