import FileExchange.Blake3.Compress
import FileExchange.Lib.FixedVector

/-!
# Blake3.Rounds — the rounds on vectors of words

The SIMD files of `deps/blake3` share one `round_fn`, on sixteen registers that hold the states of
several inputs, one in each lane.  Its statements come in groups of four, one for each quarter
round.

* `VecOps`    : the operations that each of these files defines for its registers;
* `g1`, `g2`  : the two halves of four quarter rounds at a time;
* `Placement` : where the words of the four quarter rounds stand;
* `roundFn`   : the groups of `round_fn`.

Each lane goes through the round of the portable code (`map_roundFn`).
-/

namespace FileExchange
namespace Blake3

open Lib.FixedVector

universe u v

/-- `addv`, `xorv` and the rotations of a SIMD file. -/
structure VecOps (W : Type u) where
  addv : W → W → W
  xorv : W → W → W
  rot16 : W → W
  rot12 : W → W
  rot8 : W → W
  rot7 : W → W

/-- The same on single words. -/
def wordOps : VecOps UInt32 where
  addv := (· + ·)
  xorv := (· ^^^ ·)
  rot16 := (rotr32 · 16)
  rot12 := (rotr32 · 12)
  rot8 := (rotr32 · 8)
  rot7 := (rotr32 · 7)

variable {W : Type u}

/-- In this lane, the operations are those on words. -/
structure VecOps.IsLane (ops : VecOps W) (lane : W → UInt32) : Prop where
  addv : ∀ x y, lane (ops.addv x y) = lane x + lane y
  xorv : ∀ x y, lane (ops.xorv x y) = lane x ^^^ lane y
  rot16 : ∀ x, lane (ops.rot16 x) = rotr32 (lane x) 16
  rot12 : ∀ x, lane (ops.rot12 x) = rotr32 (lane x) 12
  rot8 : ∀ x, lane (ops.rot8 x) = rotr32 (lane x) 8
  rot7 : ∀ x, lane (ops.rot7 x) = rotr32 (lane x) 7

/-! ## Quarter rounds -/

namespace VecOps

variable (ops : VecOps W)

/-- What `g1` and `g2` do, with the rotations of the one or the other. -/
def mix (rotD rotB : W → W) (rows : Vector W 4) (m : W) : Vector W 4 :=
  let rows := put rows 0 (ops.addv (ops.addv (rows.get 0) m) (rows.get 1))
  let rows := put rows 3 (ops.xorv (rows.get 3) (rows.get 0))
  let rows := put rows 3 (rotD (rows.get 3))
  let rows := put rows 2 (ops.addv (rows.get 2) (rows.get 3))
  let rows := put rows 1 (ops.xorv (rows.get 1) (rows.get 2))
  put rows 1 (rotB (rows.get 1))

def g1 (rows : Vector W 4) (m : W) : Vector W 4 :=
  ops.mix ops.rot16 ops.rot12 rows m

def g2 (rows : Vector W 4) (m : W) : Vector W 4 :=
  ops.mix ops.rot8 ops.rot7 rows m

variable {ops} {lane : W → UInt32}

theorem IsLane.map_g1 (h : ops.IsLane lane) (rows : Vector W 4) (m : W) :
    (ops.g1 rows m).map lane = wordOps.g1 (rows.map lane) (lane m) := by
  simp [g1, mix, h.addv, h.xorv, h.rot16, h.rot12, wordOps]

theorem IsLane.map_g2 (h : ops.IsLane lane) (rows : Vector W 4) (m : W) :
    (ops.g2 rows m).map lane = wordOps.g2 (rows.map lane) (lane m) := by
  simp [g2, mix, h.addv, h.xorv, h.rot8, h.rot7, wordOps]

end VecOps

/-! ## Placements -/

/-- In row `i`, the places of word `i` of the quarter rounds. -/
abbrev Placement := Vector (Vector (Fin 16) 4) 4

def columns : Placement :=
  #v[#v[0, 1, 2, 3], #v[4, 5, 6, 7], #v[8, 9, 10, 11], #v[12, 13, 14, 15]]

def diagonals : Placement :=
  #v[#v[0, 1, 2, 3], #v[5, 6, 7, 4], #v[10, 11, 8, 9], #v[15, 12, 13, 14]]

namespace Placement

variable (p : Placement)

/-- The place of word `i` of quarter round `k`. -/
def place (i k : Fin 4) : Fin 16 :=
  (p.get i).get k

/-- The words of a quarter round. -/
def quad (v : Vector W 16) (k : Fin 4) : Vector W 4 :=
  .ofFn fun i => v.get (p.place i k)

/-- No two words stand at the same place. -/
def Proper : Prop :=
  Function.Injective fun place : Fin 4 × Fin 4 => p.place place.1 place.2

theorem proper_columns : columns.Proper := by
  unfold Proper
  decide

theorem proper_diagonals : diagonals.Proper := by
  unfold Proper
  decide

variable {p} {v w : Vector W 16} {k l : Fin 4}

theorem get_quad (i : Fin 4) : (p.quad v k).get i = v.get (p.place i k) := by
  simp [quad]

theorem quad_map {U : Type v} (f : W → U) (v : Vector W 16) (k : Fin 4) :
    p.quad (v.map f) k = (p.quad v k).map f :=
  ext_get fun i => by simp [quad]

/-- The quarter rounds make up the whole state. -/
theorem Proper.ext (hp : p.Proper) (h : ∀ k, p.quad v k = p.quad w k) : v = w := by
  refine ext_get fun j => ?_
  have hbij := (Fintype.bijective_iff_injective_and_card _).2 ⟨hp, by simp⟩
  obtain ⟨⟨i, k⟩, hplace⟩ := hbij.2 j
  have hword := congrArg (·.get i) (h k)
  simp only [get_quad, hplace] at hword
  exact hword

/-- Writing a word of one quarter round. -/
theorem Proper.quad_put (hp : p.Proper) (v : Vector W 16) (i k l : Fin 4) (x : W) :
    p.quad (put v (p.place i k) x) l =
      if l = k then put (p.quad v k) i x else p.quad v l := by
  refine ext_get fun j => ?_
  have hsame : p.place i k = p.place j l ↔ i = j ∧ l = k := by
    constructor
    · intro h
      have hpair : (i, k) = ((j, l) : Fin 4 × Fin 4) := hp h
      exact ⟨congrArg Prod.fst hpair, (congrArg Prod.snd hpair).symm⟩
    · rintro ⟨rfl, rfl⟩
      rfl
  rw [get_quad, get_put]
  by_cases hl : l = k
  · subst hl
    simp [hsame, get_quad]
  · simp [hsame, hl, get_quad]

end Placement

/-! ## Rounds -/

/-- Four neighbouring statements, one for each quarter round. -/
def forFour (statement : Fin 4 → Vector W 16 → Vector W 16) (v : Vector W 16) : Vector W 16 :=
  let v := statement 0 v
  let v := statement 1 v
  let v := statement 2 v
  statement 3 v

/-- `v[x] = f(v[x], v[y])`, for words `i` and `j` of quarter round `k`. -/
def combine (f : W → W → W) (p : Placement) (i j k : Fin 4) (v : Vector W 16) : Vector W 16 :=
  put v (p.place i k) (f (v.get (p.place i k)) (v.get (p.place j k)))

/-- `v[x] = f(v[x])`. -/
def change (f : W → W) (p : Placement) (i k : Fin 4) (v : Vector W 16) : Vector W 16 :=
  put v (p.place i k) (f (v.get (p.place i k)))

namespace VecOps

variable (ops : VecOps W)

/-- One half of four quarter rounds; `words` are the message words that are added. -/
def mixFour (rotD rotB : W → W) (p : Placement) (words : Vector W 4) (v : Vector W 16) :
    Vector W 16 :=
  let v := forFour (fun k => change (ops.addv · (words.get k)) p 0 k) v
  let v := forFour (combine ops.addv p 0 1) v
  let v := forFour (combine ops.xorv p 3 0) v
  let v := forFour (change rotD p 3) v
  let v := forFour (combine ops.addv p 2 3) v
  let v := forFour (combine ops.xorv p 1 2) v
  forFour (change rotB p 1) v

def roundFn (v m : Vector W 16) (r : Fin 7) : Vector W 16 :=
  let s := msgSchedule.get r
  let word := fun i => m.get (s.get i)
  let v := ops.mixFour ops.rot16 ops.rot12 columns #v[word 0, word 2, word 4, word 6] v
  let v := ops.mixFour ops.rot8 ops.rot7 columns #v[word 1, word 3, word 5, word 7] v
  let v := ops.mixFour ops.rot16 ops.rot12 diagonals #v[word 8, word 10, word 12, word 14] v
  ops.mixFour ops.rot8 ops.rot7 diagonals #v[word 9, word 11, word 13, word 15] v

end VecOps

/-- A statement changes one quarter round. -/
def Acts (p : Placement) (k : Fin 4) (statement : Vector W 16 → Vector W 16)
    (φ : Vector W 4 → Vector W 4) : Prop :=
  ∀ v l, p.quad (statement v) l = if l = k then φ (p.quad v k) else p.quad v l

section Acts

variable {p : Placement} {ops : VecOps W} {i j k l : Fin 4}

theorem Acts.comp {first second : Vector W 16 → Vector W 16} {φ ψ : Vector W 4 → Vector W 4}
    (h : Acts p k first φ) (h' : Acts p k second ψ) :
    Acts p k (fun v => second (first v)) (fun q => ψ (φ q)) := by
  intro v l
  rw [h', h, if_pos rfl, h]
  split <;> rfl

theorem acts_put (hp : p.Proper) (i k : Fin 4) {x : Vector W 16 → W} {y : Vector W 4 → W}
    (h : ∀ v, x v = y (p.quad v k)) :
    Acts p k (fun v => put v (p.place i k) (x v)) (fun q => put q i (y q)) := by
  intro v l
  rw [hp.quad_put, h]

theorem quad_forFour {statement : Fin 4 → Vector W 16 → Vector W 16}
    {φ : Fin 4 → Vector W 4 → Vector W 4} (h : ∀ k, Acts p k (statement k) (φ k))
    (v : Vector W 16) (l : Fin 4) : p.quad (forFour statement v) l = φ l (p.quad v l) := by
  simp only [forFour, h _ _ _]
  fin_cases l <;> simp

theorem acts_combine (hp : p.Proper) (f : W → W → W) (i j k : Fin 4) :
    Acts p k (combine f p i j k) (fun q => put q i (f (q.get i) (q.get j))) :=
  acts_put hp i k fun v => by simp [Placement.quad]

theorem quad_combine (hp : p.Proper) (f : W → W → W) (i j : Fin 4) (v : Vector W 16) (l : Fin 4) :
    p.quad (forFour (combine f p i j) v) l =
      put (p.quad v l) i (f ((p.quad v l).get i) ((p.quad v l).get j)) :=
  quad_forFour (fun k => acts_combine hp f i j k) v l

theorem quad_change (hp : p.Proper) (f : Fin 4 → W → W) (i : Fin 4) (v : Vector W 16)
    (l : Fin 4) :
    p.quad (forFour (fun k => change (f k) p i k) v) l =
      put (p.quad v l) i (f l ((p.quad v l).get i)) :=
  quad_forFour (φ := fun k q => put q i (f k (q.get i)))
    (fun k => acts_put hp i k fun v => by simp [Placement.quad]) v l

/-- The statements on sixteen registers do to each quarter round what `g1` or `g2` does. -/
theorem quad_mixFour (hp : p.Proper) (rotD rotB : W → W) (words : Vector W 4) (v : Vector W 16)
    (k : Fin 4) :
    p.quad (ops.mixFour rotD rotB p words v) k = ops.mix rotD rotB (p.quad v k) (words.get k) := by
  simp only [VecOps.mixFour]
  rw [quad_change hp (fun _ => rotB), quad_combine hp, quad_combine hp,
    quad_change hp (fun _ => rotD), quad_combine hp, quad_combine hp,
    quad_change hp (fun k x => ops.addv x (words.get k))]
  simp [VecOps.mix]

/-- Half of `g`, which adds the message word last. -/
theorem acts_half (hp : p.Proper) (k : Fin 4) (x c c' : UInt32) :
    Acts p k (fun v => combine (fun b d => rotr32 (b ^^^ d) c') p 1 2 k
        (combine (· + ·) p 2 3 k
          (combine (fun d a => rotr32 (d ^^^ a) c) p 3 0 k
            (combine (fun a b => a + b + x) p 0 1 k v))))
      (fun q => wordOps.mix (rotr32 · c) (rotr32 · c') q x) := by
  have hcomp := (((acts_combine hp (fun a b => a + b + x) 0 1 k).comp
    (acts_combine hp (fun d a => rotr32 (d ^^^ a) c) 3 0 k)).comp
    (acts_combine hp (· + ·) 2 3 k)).comp
    (acts_combine hp (fun b d => rotr32 (b ^^^ d) c') 1 2 k)
  intro v l
  refine (hcomp v l).trans ?_
  split
  · have hcomm : (p.quad v k).get 0 + (p.quad v k).get 1 + x =
        (p.quad v k).get 0 + x + (p.quad v k).get 1 := by
      rw [UInt32.add_assoc, UInt32.add_comm _ x, ← UInt32.add_assoc]
    simp [VecOps.mix, wordOps, hcomm]
  · rfl

/-- `g` changes one quarter round. -/
theorem acts_g (hp : p.Proper) (k : Fin 4) (x y : UInt32) :
    Acts p k (fun v => g v (p.place 0 k) (p.place 1 k) (p.place 2 k) (p.place 3 k) x y)
      (fun q => wordOps.g2 (wordOps.g1 q x) y) := by
  intro v l
  exact ((acts_half hp k x 16 12).comp (acts_half hp k y 8 7)) v l

/-- Four quarter rounds of the portable code. -/
def gFour (p : Placement) (x y : Vector UInt32 4) (v : Vector UInt32 16) : Vector UInt32 16 :=
  forFour (fun k v => g v (p.place 0 k) (p.place 1 k) (p.place 2 k) (p.place 3 k)
    (x.get k) (y.get k)) v

theorem quad_gFour (hp : p.Proper) (x y : Vector UInt32 4) (v : Vector UInt32 16) (l : Fin 4) :
    p.quad (gFour p x y v) l = wordOps.g2 (wordOps.g1 (p.quad v l) (x.get l)) (y.get l) :=
  quad_forFour (fun k => acts_g hp k (x.get k) (y.get k)) v l

theorem gFour_columns (x₀ x₁ x₂ x₃ y₀ y₁ y₂ y₃ : UInt32) (v : Vector UInt32 16) :
    gFour columns #v[x₀, x₁, x₂, x₃] #v[y₀, y₁, y₂, y₃] v =
      g (g (g (g v 0 4 8 12 x₀ y₀) 1 5 9 13 x₁ y₁) 2 6 10 14 x₂ y₂) 3 7 11 15 x₃ y₃ := rfl

theorem gFour_diagonals (x₀ x₁ x₂ x₃ y₀ y₁ y₂ y₃ : UInt32) (v : Vector UInt32 16) :
    gFour diagonals #v[x₀, x₁, x₂, x₃] #v[y₀, y₁, y₂, y₃] v =
      g (g (g (g v 0 5 10 15 x₀ y₀) 1 6 11 12 x₁ y₁) 2 7 8 13 x₂ y₂) 3 4 9 14 x₃ y₃ := rfl

theorem roundFn_eq (v m : Vector UInt32 16) (r : Fin 7) :
    roundFn v m r =
      let s := msgSchedule.get r
      let word := fun i => m.get (s.get i)
      gFour diagonals #v[word 8, word 10, word 12, word 14] #v[word 9, word 11, word 13, word 15]
        (gFour columns #v[word 0, word 2, word 4, word 6] #v[word 1, word 3, word 5, word 7]
          v) := by
  simp only [roundFn, gFour_columns, gFour_diagonals]
  rfl

variable {lane : W → UInt32}

/-- In each lane, the two halves make up four quarter rounds. -/
theorem map_mixFour (h : ops.IsLane lane) (hp : p.Proper) (x y : Vector W 4) (v : Vector W 16) :
    (ops.mixFour ops.rot8 ops.rot7 p y (ops.mixFour ops.rot16 ops.rot12 p x v)).map lane =
      gFour p (x.map lane) (y.map lane) (v.map lane) := by
  refine hp.ext fun k => ?_
  rw [Placement.quad_map, quad_mixFour hp, quad_mixFour hp, quad_gFour hp, Placement.quad_map]
  change (ops.g2 (ops.g1 (p.quad v k) (x.get k)) (y.get k)).map lane = _
  rw [h.map_g2, h.map_g1]
  simp

/-- Every lane goes through the round of the portable code. -/
theorem map_roundFn (h : ops.IsLane lane) (v m : Vector W 16) (r : Fin 7) :
    (ops.roundFn v m r).map lane = roundFn (v.map lane) (m.map lane) r := by
  rw [roundFn_eq]
  simp only [VecOps.roundFn, map_mixFour h Placement.proper_diagonals,
    map_mixFour h Placement.proper_columns]
  simp

end Acts

end Blake3
end FileExchange
