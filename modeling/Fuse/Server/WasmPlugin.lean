import Fuse.Core.Connector
import Fuse.Foundation.Panicking

/-!
# Plugins

A plugin is a WebAssembly module that talks to the host through its linear
memory (`wasm_plugin.rs`): the host writes a text where the module's `alloc`
says, calls a function, and reads a text where that function says.  Both places
are signed words that the module may choose as it likes.
-/

namespace Fuse.Server

open Foundation Fuse.Core Panicking

/-- A memory is a slice of bytes; no slice is longer than `isize::MAX`. -/
structure LinearMemory where
  data : List UInt8
  length_lt : data.length < 2 ^ 63

def LinearMemory.copyInto (memory : LinearMemory) (start : Nat)
    (content : List UInt8) : LinearMemory :=
  ⟨Foundation.copyInto memory.data start content, by
    simpa using memory.length_lt⟩

structure WasmStore (ω : Type) where
  memory : LinearMemory
  rest : ω

abbrev WasmFn (ω α β : Type) := α → WasmStore ω → Except Str (β × WasmStore ω)

/-- A module, by what its instances do.  An export is missing if there is none
of that name and type. -/
structure WasmModule (ω : Type) where
  instantiate : (fuel : UInt64) → Except Str (WasmStore ω)
  exportsMemory : Bool
  connectorType : Option (WasmFn ω Unit (Int32 × Int32))
  alloc : Option (WasmFn ω Int32 Int32)
  jsonFn : Str → Option (WasmFn ω (Int32 × Int32) (Int32 × Int32))

/-- `String::from_utf8`, with the texts of its errors. -/
class Utf8Decoder where
  fromUtf8 : List UInt8 → Except Str Str

def wasmMaxInputSize : Nat := 1024 * 1024

abbrev HostCall := Panicking ConnectorError

def orFail {α : Type} (error : Str → ConnectorError) (r : Except Str α) :
    HostCall α :=
  ofResult (r.mapError error)

def orMissing {α : Type} (error : ConnectorError) (o : Option α) : HostCall α :=
  ofResult (o.elim (.error error) .ok)

section Host

variable (overflowChecks : Bool)

def readMemory (data : List UInt8) (ptr len : Int32)
    (outOfBounds : ConnectorError) : HostCall (List UInt8) := do
  let start := asUsize ptr
  let stop ← addUsize overflowChecks start (asUsize len)
  if data.length < stop then throw outOfBounds
  else indexRange data start stop

def writeMemory (memory : LinearMemory) (ptr : Int32) (content : List UInt8) :
    HostCall LinearMemory := do
  let start := asUsize ptr
  let stop ← addUsize overflowChecks start content.length
  let target ← indexRange memory.data start stop
  -- `copy_from_slice` wants two slices of one length.
  if target.length = content.length then return memory.copyInto start content
  else .panic .indexOutOfBounds

variable [Utf8Decoder] {ω : Type} (plugin : WasmModule ω) (fuel : UInt64)

def probeConnectorType : HostCall Str := do
  let store ← orFail (fun e => .connection (("wasm instantiate: " : Str) ++ e))
    (plugin.instantiate fuel)
  let func ← orMissing (.connection "wasm: missing 'connector_type' export")
    plugin.connectorType
  let ((ptr, len), store) ←
    orFail (fun e => .connection (("wasm connector_type call: " : Str) ++ e))
      (func () store)
  orMissing (.connection "wasm: no memory export")
    (if plugin.exportsMemory then some () else none)
  let data ← readMemory overflowChecks store.memory.data ptr len
    (.connection "wasm: connector_type out of bounds")
  orFail (fun e => .connection (("wasm: invalid utf8: " : Str) ++ e))
    (Utf8Decoder.fromUtf8 data)

def inputBytes (input : Str) : List UInt8 := input.flatMap String.utf8EncodeChar

def callJsonFn (funcName input : Str) : HostCall Str := do
  let bytes := inputBytes input
  if wasmMaxInputSize < bytes.length then
    throw (.queryFailed (("wasm input too large: " : Str) ++
      Str.ofNat bytes.length ++ (" bytes (max " : Str) ++
      Str.ofNat wasmMaxInputSize ++ (")" : Str)))
  else
    let store ← orFail
      (fun e => .connection (("wasm instantiate: " : Str) ++ e))
      (plugin.instantiate fuel)
    orMissing (.connection "wasm: no memory export")
      (if plugin.exportsMemory then some () else none)
    let alloc ← orMissing (.connection "wasm: missing 'alloc' export")
      plugin.alloc
    let (inputPtr, store) ←
      orFail (fun e => .connection (("wasm alloc: " : Str) ++ e))
        (alloc (Int32.ofNat bytes.length) store)
    let memory ← writeMemory overflowChecks store.memory inputPtr bytes
    let func ← orMissing (.connection (("wasm: missing '" : Str) ++ funcName ++
      ("' export" : Str))) (plugin.jsonFn funcName)
    let ((outPtr, outLen), store) ←
      orFail (fun e => .queryFailed (("wasm " : Str) ++ funcName ++
        (": " : Str) ++ e))
        (func (inputPtr, Int32.ofNat bytes.length) { store with memory })
    let data ← readMemory overflowChecks store.memory.data outPtr outLen
      (.queryFailed (("wasm " : Str) ++ funcName ++
        (": output out of bounds" : Str)))
    orFail (fun e => .queryFailed (("wasm: invalid utf8: " : Str) ++ e))
      (Utf8Decoder.fromUtf8 data)

end Host

variable {error : Str → ConnectorError} {overflowChecks : Bool}
  {memory : LinearMemory}

theorem returns_orFail_bind_iff {α β : Type} {r : Except Str α}
    {f : α → HostCall β} :
    Returns (orFail error r >>= f) ↔ ∀ a, r = .ok a → Returns (f a) := by
  rw [orFail, returns_ofResult_bind_iff]
  cases r with
  | error e | ok a => simp [Except.mapError]

theorem returns_orMissing_bind_iff {α β : Type} {error : ConnectorError}
    {o : Option α}
    {f : α → HostCall β} : Returns (orMissing error o >>= f) ↔ ∀ a, o = some a →
    Returns (f a) := by
  rw [orMissing, returns_ofResult_bind_iff]
  cases o with
  | none | some a => simp

theorem returns_orFail {α : Type} (error : Str → ConnectorError)
    (r : Except Str α) : Returns (orFail error r) :=
  returns_ofResult _

def ReadablePair (overflowChecks : Bool) (size : Nat) (ptr len : Int32) :
    Prop :=
  (0 ≤ ptr.toInt ∧ 0 ≤ len.toInt) ∨
    if overflowChecks then
      (0 ≤ ptr.toInt ∨ 0 ≤ len.toInt) ∧ ptr.toInt + len.toInt < 0
    else ptr.toInt + len.toInt < 0 ∨ (size : Int) < ptr.toInt + len.toInt

theorem returns_readMemory_iff {data : List UInt8}
    (hsize : data.length < 2 ^ 63) {ptr len : Int32} {e : ConnectorError} :
    Returns (readMemory overflowChecks data ptr len e) ↔
      ReadablePair overflowChecks data.length ptr len := by
  have hptr := ptr.toInt_lt
  have hlen := len.toInt_lt
  have hptr' := ptr.le_toInt
  have hlen' := len.le_toInt
  have hread : ∀ stop, Returns (if data.length < stop then throw e
      else indexRange data (asUsize ptr) stop : HostCall (List UInt8)) ↔
      data.length < stop ∨ asUsize ptr ≤ stop := by
    intro stop
    split
    · next h => simp [returns_throw, h]
    · rename_i h
      rw [returns_indexRange_iff]
      omega
  rw [readMemory, returns_addUsize_bind_iff, hread, hread]
  unfold ReadablePair asUsize
  cases overflowChecks with
  | true =>
    simp only [reduceIte, Bool.true_eq_false, false_and]
    split
    · omega
    · rw [false_iff]
      omega
  | false =>
    simp only [Bool.false_eq_true, if_false, true_and]
    split <;> omega

theorem returns_readText_iff [Utf8Decoder] {ptr len : Int32}
    {e : ConnectorError} :
    Returns (readMemory overflowChecks memory.data ptr len e >>= fun data =>
      orFail error (Utf8Decoder.fromUtf8 data)) ↔
      ReadablePair overflowChecks memory.data.length ptr len := by
  rw [returns_bind_iff, returns_readMemory_iff memory.length_lt]
  simp [returns_orFail]

theorem returns_writeMemory_bind_iff {α : Type} {ptr : Int32}
    {content : List UInt8} (hcontent : content.length ≤ wasmMaxInputSize)
    {f : LinearMemory → HostCall α} :
    Returns (writeMemory overflowChecks memory ptr content >>= f) ↔
    (0 ≤ ptr.toInt ∧
        ptr.toInt + content.length ≤ memory.data.length) ∧
      Returns (f (memory.copyInto (asUsize ptr) content)) := by
  have hptr := ptr.toInt_lt
  have hptr' := ptr.le_toInt
  have hsize := memory.length_lt
  unfold wasmMaxInputSize at hcontent
  have hcopy : ∀ target : List UInt8, Returns ((if target.length =
      content.length then return memory.copyInto (asUsize ptr) content
      else .panic .indexOutOfBounds) >>= f) ↔
      target.length = content.length ∧
      Returns (f (memory.copyInto (asUsize ptr) content)) := by
    intro target
    split
    · next h => simp [h]
    · next h => simp [returns_bind_iff, not_returns_panic, h]
  have hwrite : ∀ stop, Returns (indexRange memory.data (asUsize ptr) stop >>=
      fun target => (if target.length = content.length then
        return memory.copyInto (asUsize ptr) content
        else .panic .indexOutOfBounds) >>= f) ↔
      (asUsize ptr + content.length = stop ∧ stop ≤ memory.data.length) ∧
        Returns (f (memory.copyInto (asUsize ptr) content)) := by
    intro stop
    rw [returns_indexRange_bind_iff, hcopy, ← and_assoc, List.length_drop,
      List.length_take]
    refine and_congr_left fun _ => ?_
    omega
  simp only [writeMemory, bind_assoc]
  rw [returns_addUsize_bind_iff, hwrite, hwrite]
  split
  · refine and_congr_left fun _ => ?_
    unfold asUsize at *
    omega
  rw [← and_assoc]
  refine and_congr_left fun _ => ?_
  unfold asUsize at *
  omega

section Plugin

variable [Utf8Decoder] {ω : Type} (overflowChecks : Bool)
  (plugin : WasmModule ω) (fuel : UInt64)

/-- The pair `connector_type` returns, if it gets as far as that. -/
def TypeReadable : Prop :=
  ∀ store func ptr len store', plugin.instantiate fuel = .ok store →
    plugin.connectorType = some func →
    func () store = .ok ((ptr, len), store') → plugin.exportsMemory = true →
    ReadablePair overflowChecks store'.memory.data.length ptr len

/-- The pointer `alloc` returns for an input, and the pair the function returns
on the memory with that input. -/
def CallReadable (funcName input : Str) : Prop :=
  (inputBytes input).length ≤ wasmMaxInputSize →
    ∀ store alloc ptr store', plugin.instantiate fuel = .ok store →
    plugin.exportsMemory = true → plugin.alloc = some alloc →
    alloc (Int32.ofNat (inputBytes input).length) store = .ok (ptr, store') →
    (0 ≤ ptr.toInt ∧
      ptr.toInt + (inputBytes input).length ≤ store'.memory.data.length) ∧
    ∀ func outPtr outLen store'', plugin.jsonFn funcName = some func →
      func (ptr, Int32.ofNat (inputBytes input).length)
        { store' with
          memory := store'.memory.copyInto (asUsize ptr) (inputBytes input) } =
        .ok ((outPtr, outLen), store'') →
      ReadablePair overflowChecks store''.memory.data.length outPtr outLen

theorem returns_probe_iff :
    Returns (probeConnectorType overflowChecks plugin fuel) ↔
      TypeReadable overflowChecks plugin fuel := by
  simp only [probeConnectorType, returns_orFail_bind_iff,
    returns_orMissing_bind_iff, returns_readText_iff]
  constructor
  · intro h store func ptr len store' hstore hfunc hcall hmemory
    exact h store hstore func hfunc _ hcall () (if_pos hmemory)
  · rintro h store hstore func hfunc ⟨⟨ptr, len⟩, store'⟩ hcall _ hmemory
    refine h store func ptr len store' hstore hfunc hcall ?_
    by_contra hnone
    rw [if_neg hnone] at hmemory
    cases hmemory

theorem returns_callJsonFn_iff (funcName input : Str) :
    Returns (callJsonFn overflowChecks plugin fuel funcName input) ↔
      CallReadable overflowChecks plugin fuel funcName input := by
  unfold callJsonFn CallReadable
  dsimp only
  split
  · rename_i hlarge
    simp only [returns_throw, true_iff]
    omega
  rename_i hsmall
  have hinput := Nat.le_of_not_lt hsmall
  simp only [returns_orFail_bind_iff, returns_orMissing_bind_iff,
    returns_writeMemory_bind_iff hinput, returns_readText_iff]
  constructor
  · intro h _ store alloc ptr store' hstore hmemory halloc hcall
    have hwritten := h store hstore () (if_pos hmemory) alloc halloc
      (ptr, store') hcall
    refine ⟨hwritten.1, fun func outPtr outLen store'' hfunc hout => ?_⟩
    exact hwritten.2 func hfunc ((outPtr, outLen), store'') hout
  · rintro h store hstore _ hmemory alloc halloc ⟨ptr, store'⟩ hcall
    have hexported : plugin.exportsMemory = true := by
      by_contra hnone
      rw [if_neg hnone] at hmemory
      cases hmemory
    have hreadable :=
      h hinput store alloc ptr store' hstore hexported halloc hcall
    refine ⟨hreadable.1, ?_⟩
    rintro func hfunc ⟨⟨outPtr, outLen⟩, store''⟩ hout
    exact hreadable.2 func outPtr outLen store'' hfunc hout

/-- The host returns to its caller whatever the module does exactly if the
places it names do not make the host's own arithmetic or slices panic. -/
theorem plugin_returns_iff (funcName input : Str) :
    (Returns (probeConnectorType overflowChecks plugin fuel) ∧
      Returns (callJsonFn overflowChecks plugin fuel funcName input)) ↔
      TypeReadable overflowChecks plugin fuel ∧
        CallReadable overflowChecks plugin fuel funcName input := by
  rw [returns_probe_iff, returns_callJsonFn_iff]

end Plugin

/-- A module that answers with the same places to every call. -/
def fixedPlaces (memory : LinearMemory) (typePlace : Int32 × Int32)
    (inputPlace : Int32) : WasmModule Unit where
  instantiate _ := .ok ⟨memory, ()⟩
  exportsMemory := true
  connectorType := some fun _ store => .ok (typePlace, store)
  alloc := some fun _ store => .ok (inputPlace, store)
  jsonFn _ := some fun _ store => .ok ((0, 0), store)

def onePage : LinearMemory where
  data := List.replicate 65536 0
  length_lt := by
    rw [List.length_replicate]
    decide

@[reducible] def asciiDecoder : Utf8Decoder where
  fromUtf8 bytes :=
    if bytes.all (· < 128) then .ok (bytes.map fun b => Char.ofNat b.toNat)
    else .error "invalid utf-8 sequence"

attribute [local instance] asciiDecoder

/-- A length of -1 behind the first byte: either kind of build panics. -/
theorem misplaced_type (memory : LinearMemory) :
    (probeConnectorType true (fixedPlaces memory (1, -1) 0) 100).run =
        .error .arithmeticOverflow ∧
      (probeConnectorType false (fixedPlaces memory (1, -1) 0) 100).run =
        .error .sliceOrder :=
  ⟨rfl, rfl⟩

theorem misplaced_input (memory : LinearMemory) :
    (callJsonFn true (fixedPlaces memory (0, 0) (-1)) 100 "execute" "[]").run =
        .error .arithmeticOverflow ∧
      (callJsonFn false (fixedPlaces memory (0, 0) (-1))
        100 "execute" "[]").run = .error .sliceOrder :=
  ⟨rfl, rfl⟩

private theorem input_beyond_page {memory : LinearMemory}
    (hsize : memory.data.length = 65536) :
    (callJsonFn false (fixedPlaces memory (0, 0) 65535)
      100 "execute" "[]").run = .error .indexOutOfBounds := by
  have hwrite : (indexRange memory.data 65535 65537 : HostCall (List UInt8)) =
      .panic .indexOutOfBounds := by
    rw [indexRange, if_neg (by decide), if_pos (by rw [hsize]; decide)]
  change ((indexRange memory.data 65535 65537 : HostCall (List UInt8)) >>=
    _ >>= _ :
    HostCall Str).run = _
  rw [hwrite]
  rfl

theorem misplaced_text_panics :
    (probeConnectorType true (fixedPlaces onePage (1, -1) 0) 100).run =
        .error .arithmeticOverflow ∧
    (probeConnectorType false (fixedPlaces onePage (1, -1) 0) 100).run =
      .error .sliceOrder ∧
    (callJsonFn true (fixedPlaces onePage (0, 0) (-1)) 100 "execute" "[]").run =
        .error .arithmeticOverflow ∧
    (callJsonFn false (fixedPlaces onePage (0, 0) (-1))
      100 "execute" "[]").run = .error .sliceOrder ∧
    (callJsonFn false (fixedPlaces onePage (0, 0) 65535)
      100 "execute" "[]").run = .error .indexOutOfBounds := by
  obtain ⟨hchecked, hwrapped⟩ := misplaced_type onePage
  obtain ⟨hinput, hinput'⟩ := misplaced_input onePage
  exact ⟨hchecked, hwrapped, hinput, hinput',
    input_beyond_page List.length_replicate⟩

end Fuse.Server
