import Mathlib

/-!
# Reading files of columns

`readFileByColumn` and `readFileByColumn_blocked` of `ReadFile.hpp`. The blocked reader opens the
file anew in each call, skips as many lines as `line_id` counts and reads one block; the variable
is handed on from call to call. A container is the list of its columns, whose elements are
unsigned.
-/

namespace DataflowSim.Util.ReadFile

/-! ## Lines -/

/-- What `getline` extracts one after the other. The last line may be without a newline. -/
def lines : List Char → List (List Char)
  | [] => []
  | ch :: rest =>
    if ch = '\n' then [] :: lines rest
    else
      match lines rest with
      | [] => [[ch]]
      | line :: more => (ch :: line) :: more

/-- One call of `getline`. -/
theorem lines_eq {file : List Char} (more : file ≠ []) :
    lines file = file.takeWhile (· ≠ '\n') :: lines (file.dropWhile (· ≠ '\n')).tail := by
  induction file with
  | nil => contradiction
  | cons ch rest ih =>
    by_cases newline : ch = '\n'
    · simp [lines, newline]
    · cases rest with
      | nil => simp [lines, newline]
      | cons ch' rest => rw [lines, if_neg newline, ih (by simp)]; simp [newline]

/-- `>>` skips blanks before a word and stops at the next one. -/
def isspace (ch : Char) : Bool := ch ∈ [' ', '\t', '\n', '\x0b', '\x0c', '\x0d']

def words (line : List Char) : List (List Char) := (line.splitOnP isspace).filter (· ≠ [])

/-! ## Numbers -/

inductive ReadError where
  /-- `stoi` throws `invalid_argument`. -/
  | noConversion
  /-- `stoi` throws `out_of_range`. -/
  | outOfRange
  /-- The file has more columns than the container. -/
  | columnSize
  deriving DecidableEq, Repr

/-- `stoi`: a sign, and the digits up to another character. -/
def stoi (s : List Char) : Except ReadError Int :=
  let (negative, digits) := match s with
    | '-' :: digits => (true, digits)
    | '+' :: digits => (false, digits)
    | digits => (false, digits)
  let digits := digits.takeWhile Char.isDigit
  if digits = [] then .error .noConversion
  else
    let magnitude : Int := digits.foldl (fun n ch => 10 * n + (ch.toNat - '0'.toNat)) 0
    let val := if negative then -magnitude else magnitude
    if -2 ^ 31 ≤ val ∧ val < 2 ^ 31 then .ok val else .error .outOfRange

/-- One word of a line. The value becomes a `uint64_t`. -/
def pushWord (container : List (List Nat)) (word : List Char × Nat) :
    Except ReadError (List (List Nat)) := do
  let tmp ← stoi word.1
  if word.2 < container.length then
    .ok (container.modify word.2 (· ++ [(tmp % 2 ^ 64).toNat]))
  else .error .columnSize

def pushLine (container : List (List Nat)) (line : List Char) : Except ReadError (List (List Nat)) :=
  (words line).zipIdx.foldlM pushWord container

/-! ## The readers -/

def readFileByColumn (container : List (List Nat)) (file : List Char) :
    Except ReadError (List (List Nat)) :=
  (lines file).foldlM pushLine container

/-- The variables of the loop over the lines. -/
structure Block where
  vec : List (List Char) := []
  lineId : Nat
  readLineCnt : Nat := 0
  linePtr : Nat := 0
  beginRead : Bool := false

def readBlock (blockLineSize : Nat) : List (List Char) → Block → Block
  | [], b => b
  | temp :: rest, b =>
    if b.linePtr = b.lineId ∨ b.beginRead = true then
      let b := { b with
        vec := b.vec ++ [temp]
        lineId := b.lineId + 1
        readLineCnt := b.readLineCnt + 1
        beginRead := true }
      if blockLineSize ≤ b.lineId - b.linePtr then b else readBlock blockLineSize rest b
    else readBlock blockLineSize rest { b with linePtr := b.linePtr + 1 }

/-- The columns, the line to go on from, and whether the file has been read to its end. -/
def readFileByColumn_blocked (container : List (List Nat)) (file : List Char)
    (blockLineSize lineId : Nat) : Except ReadError (List (List Nat) × Nat × Bool) := do
  let b := readBlock blockLineSize (lines file) { lineId := lineId }
  let container ← b.vec.foldlM pushLine container
  .ok (container, b.lineId, b.readLineCnt < blockLineSize)

/-- At most so many calls with the same variable, until one of them reports completion. -/
def readByBlocks (file : List Char) (blockLineSize : Nat) :
    Nat → List (List Nat) → Nat → Option (Except ReadError (List (List Nat)))
  | 0, _, _ => none
  | calls + 1, container, lineId =>
    match readFileByColumn_blocked container file blockLineSize lineId with
    | .error e => some (.error e)
    | .ok (container, lineId, fileReadComplete) =>
      if fileReadComplete then some (.ok container)
      else readByBlocks file blockLineSize calls container lineId

/-! ## One block -/

/-- The lines before the block are counted and left. -/
theorem readBlock_skip {blockLineSize : Nat} {skipped rest : List (List Char)} {b : Block}
    (fresh : b.beginRead = false) (before : b.linePtr + skipped.length = b.lineId) :
    readBlock blockLineSize (skipped ++ rest) b =
      readBlock blockLineSize rest { b with linePtr := b.lineId } := by
  induction skipped generalizing b with
  | nil =>
    obtain ⟨vec, lineId, cnt, linePtr, begun⟩ := b
    obtain rfl : linePtr = lineId := by simpa using before
    rfl
  | cons temp skipped ih =>
    have ne : b.linePtr ≠ b.lineId := by
      simp at before
      omega
    rw [List.cons_append, readBlock, if_neg (by simp [ne, fresh])]
    exact ih fresh (by simp at before ⊢; omega)

/-- From the first line of the block on. -/
theorem readBlock_take {blockLineSize : Nat} {rest : List (List Char)} {b : Block}
    (began : b.linePtr = b.lineId ∨ b.beginRead = true) (le : b.linePtr ≤ b.lineId)
    (more : b.lineId - b.linePtr < blockLineSize) :
    let block := rest.take (blockLineSize - (b.lineId - b.linePtr))
    (readBlock blockLineSize rest b).vec = b.vec ++ block ∧
      (readBlock blockLineSize rest b).lineId = b.lineId + block.length ∧
      (readBlock blockLineSize rest b).readLineCnt = b.readLineCnt + block.length := by
  induction rest generalizing b with
  | nil => simp [readBlock]
  | cons temp rest ih =>
    obtain ⟨k, size⟩ : ∃ k, blockLineSize - (b.lineId - b.linePtr) = k + 1 :=
      ⟨blockLineSize - (b.lineId - b.linePtr) - 1, by omega⟩
    rw [readBlock, if_pos began, size, List.take_succ_cons]
    dsimp only
    split_ifs with full
    · obtain rfl : k = 0 := by omega
      simp
    · obtain ⟨vec, lineId, cnt⟩ := @ih { b with
        vec := b.vec ++ [temp]
        lineId := b.lineId + 1
        readLineCnt := b.readLineCnt + 1
        beginRead := true } (.inr rfl) (by simp; omega) (by simpa using full)
      have left : blockLineSize - (b.lineId + 1 - b.linePtr) = k := by omega
      simp only [left] at vec lineId cnt
      refine ⟨vec.trans (by simp), ?_, ?_⟩
      · rw [lineId, List.length_cons]
        omega
      · rw [cnt, List.length_cons]
        omega

/-- A call reads the block at `line_id`. -/
theorem readFileByColumn_blocked_eq {container : List (List Nat)} {file : List Char}
    {blockLineSize lineId : Nat} (pos : 0 < blockLineSize) (le : lineId ≤ (lines file).length)
    {block : List (List Char)} (here : ((lines file).drop lineId).take blockLineSize = block) :
    readFileByColumn_blocked container file blockLineSize lineId =
      (block.foldlM pushLine container).map fun container =>
        (container, lineId + block.length, decide (block.length < blockLineSize)) := by
  have skip := @readBlock_skip blockLineSize ((lines file).take lineId) ((lines file).drop lineId)
    { lineId := lineId } rfl (by simpa using le)
  rw [List.take_append_drop] at skip
  obtain ⟨vec, next, cnt⟩ := @readBlock_take blockLineSize ((lines file).drop lineId)
    { lineId := lineId, linePtr := lineId } (.inl rfl) le_rfl (by simpa using pos)
  simp only [Nat.sub_self, Nat.sub_zero, here, List.nil_append, Nat.zero_add] at vec next cnt
  rw [readFileByColumn_blocked, skip, vec, next, cnt]
  cases block.foldlM pushLine container <;> rfl

/-! ## All blocks -/

theorem readByBlocks_from {container : List (List Nat)} {file : List Char}
    {blockLineSize calls lineId : Nat} (pos : 0 < blockLineSize) (le : lineId ≤ (lines file).length)
    (enough : ((lines file).length - lineId) / blockLineSize = calls) :
    readByBlocks file blockLineSize (calls + 1) container lineId =
      some (((lines file).drop lineId).foldlM pushLine container) := by
  induction calls generalizing container lineId with
  | zero =>
    have short : (lines file).length - lineId < blockLineSize := by
      rw [Nat.div_eq_zero_iff] at enough
      omega
    have all : ((lines file).drop lineId).take blockLineSize = (lines file).drop lineId :=
      List.take_of_length_le (by simp; omega)
    rw [readByBlocks, readFileByColumn_blocked_eq pos le all]
    cases ((lines file).drop lineId).foldlM pushLine container with
    | error e => rfl
    | ok container => simp [Except.map, short]
  | succ calls ih =>
    have long : blockLineSize ≤ (lines file).length - lineId :=
      (Nat.div_pos_iff.mp (by omega)).2
    have next : ((lines file).length - (lineId + blockLineSize)) / blockLineSize = calls := by
      rw [Nat.div_eq_sub_div pos long] at enough
      rw [← Nat.sub_sub]
      omega
    have parts := (List.take_append_drop blockLineSize ((lines file).drop lineId)).symm
    rw [List.drop_drop] at parts
    rw [readByBlocks, readFileByColumn_blocked_eq pos le rfl]
    conv_rhs => rw [parts, List.foldlM_append]
    have size : (((lines file).drop lineId).take blockLineSize).length = blockLineSize := by
      simpa using long
    rw [size]
    cases (((lines file).drop lineId).take blockLineSize).foldlM pushLine container with
    | error e => rfl
    | ok container => simpa [Except.map, bind, Except.bind] using ih (by omega) next

/-- For any size of the blocks the calls come to an end, with what one call of the plain reader
gives. -/
theorem readByBlocks_eq (file : List Char) (container : List (List Nat)) {blockLineSize : Nat}
    (pos : 0 < blockLineSize) :
    readByBlocks file blockLineSize ((lines file).length / blockLineSize + 1) container 0 =
      some (readFileByColumn container file) :=
  readByBlocks_from pos (Nat.zero_le _) rfl

/-- Three rows in blocks of two, the last one without a newline. -/
theorem readByBlocks_eq_threeRows :
    readByBlocks "1 2\n3 -4\n5 6".toList 2 2 [[], []] 0 =
      some (readFileByColumn [[], []] "1 2\n3 -4\n5 6".toList) :=
  readByBlocks_eq "1 2\n3 -4\n5 6".toList [[], []] (by decide : 0 < 2)

example : (readFileByColumn [[], []] "1 2\n3 -4\n5 6".toList).toOption =
    some [[1, 3, 5], [2, 2 ^ 64 - 4, 6]] := by decide +kernel

end DataflowSim.Util.ReadFile
