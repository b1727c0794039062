import DataflowSim.Registry.Table
import DataflowSim.Execution.Channel

/-!
# Occupancy of the buffers

`Profiler::updateBufferMaxDataNum`. The running maxima are indexed by the channels, each of which
has one module id, and an update sees the buffers of all channels. The counter `cnt` is cleared
before the loop over the registry, and not for each channel.
-/

namespace DataflowSim.Registry

open Execution (Data)

/-- The buffers of all channels at one update. -/
abbrev Buffers := ChanId → List (List Data)

def countBuffers (cnt : Nat) (chanBuffer : List (List Data)) : Nat :=
  chanBuffer.foldl (fun cnt buffer => max cnt buffer.length) cnt

def updateEntry (buffers : Buffers) (s : Nat × (ChanId → Nat)) (entry : Module) :
    Nat × (ChanId → Nat) :=
  match entry with
  | .chan c =>
    let cnt := countBuffers s.1 (buffers c)
    (cnt, Function.update s.2 c (max cnt (s.2 c)))
  | _ => s

def updateBufferMaxDataNum (table : List Module) (maxDataNum : ChanId → Nat) (buffers : Buffers) :
    ChanId → Nat :=
  (table.foldl (updateEntry buffers) (0, maxDataNum)).2

/-- What is recorded after some updates. -/
def recorded (table : List Module) (updates : List Buffers) : ChanId → Nat :=
  updates.foldl (updateBufferMaxDataNum table) fun _ => 0

/-- The fill of the fullest buffer of a channel, over the updates. -/
def peak (updates : List Buffers) (c : ChanId) : Nat :=
  updates.foldl (fun peak buffers => max peak (countBuffers 0 (buffers c))) 0

/-- The channels that the registry lists before one. -/
def earlier (table : List Module) (c : ChanId) : List ChanId := (channels table).takeWhile (· ≠ c)

/-! ## Bounds -/

theorem foldl_max_le {α : Type*} {f : α → Nat} {l : List α} {start n : Nat} :
    l.foldl (fun top a => max top (f a)) start ≤ n ↔ start ≤ n ∧ ∀ a ∈ l, f a ≤ n := by
  induction l generalizing start with
  | nil => simp
  | cons a l ih => simp [ih, and_assoc]

theorem countBuffers_le {cnt n : Nat} {chanBuffer : List (List Data)} :
    countBuffers cnt chanBuffer ≤ n ↔ cnt ≤ n ∧ countBuffers 0 chanBuffer ≤ n := by
  simp [countBuffers, foldl_max_le]

theorem peak_le {updates : List Buffers} {c : ChanId} {n : Nat} :
    peak updates c ≤ n ↔ ∀ buffers ∈ updates, countBuffers 0 (buffers c) ≤ n := by
  simp [peak, foldl_max_le]

theorem peak_concat_le {updates : List Buffers} {buffers : Buffers} {c : ChanId} {n : Nat} :
    peak (updates ++ [buffers]) c ≤ n ↔ peak updates c ≤ n ∧ countBuffers 0 (buffers c) ≤ n := by
  simp [peak_le, or_imp, forall_and]

/-- The loop over the channels, from one of them on. -/
theorem updateEntry_le {buffers : Buffers} {l : List ChanId} (nodup : l.Nodup) {cnt n : Nat}
    {maxDataNum : ChanId → Nat} {c : ChanId} :
    ((l.map Module.chan).foldl (updateEntry buffers) (cnt, maxDataNum)).2 c ≤ n ↔
      maxDataNum c ≤ n ∧ (c ∈ l → cnt ≤ n ∧
        ∀ b ∈ l.takeWhile (· ≠ c) ++ [c], countBuffers 0 (buffers b) ≤ n) := by
  induction l generalizing cnt maxDataNum with
  | nil => simp
  | cons b l ih =>
    obtain ⟨fresh, nodup⟩ := List.nodup_cons.mp nodup
    simp only [List.map_cons, List.foldl_cons, updateEntry]
    rw [ih nodup, countBuffers_le]
    by_cases here : b = c
    · subst here
      simp only [Function.update_self, Nat.max_le, @countBuffers_le cnt, fresh, false_imp_iff]
      simp [and_comm]
    · have there : c ∈ b :: l ↔ c ∈ l := by simp [Ne.symm here]
      rw [Function.update_of_ne (Ne.symm here), there, List.takeWhile_cons_of_pos (by simpa using here),
        List.cons_append, List.forall_mem_cons]
      simp only [and_assoc]

theorem foldl_updateEntry (table : List Module) (buffers : Buffers) (s : Nat × (ChanId → Nat)) :
    table.foldl (updateEntry buffers) s =
      ((channels table).map Module.chan).foldl (updateEntry buffers) s := by
  induction table generalizing s with
  | nil => rfl
  | cons entry table ih =>
    cases entry with
    | chan c => exact ih _
    | lc | mux => exact ih s

/-- The record of a channel covers the channels up to it. -/
theorem recorded_le {table : List Module} (distinct : (channels table).Nodup) {updates : List Buffers}
    {c : ChanId} (mem : c ∈ channels table) {n : Nat} : recorded table updates c ≤ n ↔
      ∀ b ∈ earlier table c ++ [c], peak updates b ≤ n := by
  induction updates using List.reverseRecOn with
  | nil => simp [recorded, peak]
  | append_singleton updates buffers ih =>
    have step : recorded table (updates ++ [buffers]) c =
        updateBufferMaxDataNum table (recorded table updates) buffers c := by simp [recorded]
    rw [step, updateBufferMaxDataNum, foldl_updateEntry, updateEntry_le distinct, ih]
    simp only [mem, true_imp_iff, Nat.zero_le, true_and, peak_concat_le, imp_and, forall_and]
    rfl

/-! ## When the record is that of the channel alone -/

theorem recorded_eq_peak {table : List Module} (distinct : (channels table).Nodup)
    {updates : List Buffers} {c : ChanId} (mem : c ∈ channels table) :
    recorded table updates c = peak updates c ↔
      ∀ b ∈ earlier table c, peak updates b ≤ peak updates c := by
  have bound := fun n => @recorded_le table distinct updates c mem n
  have least : peak updates c ≤ recorded table updates c :=
    (bound _).mp le_rfl c (List.mem_append_right _ List.mem_cons_self)
  constructor
  · intro same b before
    exact same ▸ (bound _).mp le_rfl b (List.mem_append_left _ before)
  · intro lower
    refine Nat.le_antisymm ((bound _).mpr ?_) least
    exact List.forall_mem_append.mpr ⟨lower, by simp⟩

/-- After each update the records are the peaks of the channels themselves, if and only if no
channel has ever been fuller than each later one had been until then. -/
theorem recorded_eq_peak_iff (table : List Module) (distinct : (channels table).Nodup)
    (updates : List Buffers) :
    (∀ done, done <+: updates → ∀ c ∈ channels table, recorded table done c = peak done c) ↔
      ∀ done, done <+: updates → ∀ c ∈ channels table, ∀ b ∈ earlier table c,
        peak done b ≤ peak done c :=
  forall₂_congr fun _ _ => forall₂_congr fun _ mem => recorded_eq_peak distinct mem

/-- The first channel holds two data, the second one none. -/
def unequal : Buffers
  | .node "a" => [[{}, {}]]
  | _ => [[]]

def twoChannels : List Module := [.chan (.node "a"), .chan (.node "b")]

theorem recorded_eq_peak_iff_unequal :
    (∀ done, done <+: [unequal] → ∀ c ∈ channels twoChannels,
      recorded twoChannels done c = peak done c) ↔
      ∀ done, done <+: [unequal] → ∀ c ∈ channels twoChannels, ∀ b ∈ earlier twoChannels c,
        peak done b ≤ peak done c :=
  recorded_eq_peak_iff twoChannels (by decide) [unequal]

/-- The second channel is recorded with the occupancy of the first one, and without it there would
be none. -/
theorem recorded_unequal : recorded twoChannels [unequal] (.node "b") = 2 ∧
    peak [unequal] (.node "b") = 0 ∧ recorded [.chan (.node "b")] [unequal] (.node "b") = 0 := by
  decide

end DataflowSim.Registry
