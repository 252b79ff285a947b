import EinkNode.Lib.CString
import EinkNode.Lib.Errno
import EinkNode.Lib.Wp
/-!
# The panel driver

`display_el133uf1.c`: two controllers on one SPI bus, each with its chip select,
and one DC pin that tells commands from data. The driver's record keeps what it
has done to the pins and the bus; how SPI writes and waits end is kept in
queues. A frame is loaded through a fill callback, half by half, and a refresh
makes it visible.
-/
open NodeLib

namespace EinkNode.El133

def EL133_POF : UInt8 := 0x02
def EL133_PON : UInt8 := 0x04
def EL133_DTM : UInt8 := 0x10
def EL133_DRF : UInt8 := 0x12

def V_POF : Bytes := [0x01]
def V_DRF : Bytes := [0x00]

def EL133_PAYLOAD_BYTES : Nat := 960000
def EL133_HALF_BYTES : Nat := EL133_PAYLOAD_BYTES / 2
def EL133_CHUNK : Nat := 4096

inductive Cs where
  | EL133_CS0 | EL133_CS1 | EL133_CS_BOTH
deriving DecidableEq

/-- A logical level on a pin, or bytes that are clocked out. -/
inductive Op where
  | cs0 (level : Bool)
  | cs1 (level : Bool)
  | dc (level : Bool)
  | spi (bytes : Bytes)
deriving DecidableEq

/-- `struct el133_data`, with what has gone over the wires. The next SPI write
succeeds, or ends in the error `-(e + 1)` after `n` bytes; the next wait sees
the panel ready, or not. An empty queue means success. -/
structure Driver where
  blanking_on : Bool
  dirty : Bool
  wire : List Op
  spi : List (Option (Nat × Nat))
  busy : List Bool

def put (op : Op) : StateM Driver Unit := fun d => ((), { d with wire := d.wire ++ [op] })

def cs_set (which : Cs) (selected : Bool) : StateM Driver Unit :=
  match which with
  | .EL133_CS0 => put (.cs0 selected)
  | .EL133_CS1 => put (.cs1 selected)
  | .EL133_CS_BOTH => do
    put (.cs0 selected)
    put (.cs1 selected)

def spi_write (bytes : Bytes) : StateM Driver Int := fun d =>
  match d.spi.headD none with
  | none => (0, { d with wire := d.wire ++ [.spi bytes], spi := d.spi.tail })
  | some (e, n) => (-(e + 1 : Nat), { d with wire := d.wire ++ [.spi (bytes.take n)], spi := d.spi.tail })

def wait_ready : StateM Driver Int := fun d =>
  (if d.busy.headD true then 0 else -ETIMEDOUT, { d with busy := d.busy.tail })

/-! ## Commands -/

def xfer_cmd (which : Cs) (cmd : UInt8) (data : Bytes) : StateM Driver Int := do
  cs_set which true
  put (.dc false)
  let ret ← spi_write [cmd]
  if ret < 0 then
    cs_set which false
    pure ret
  else if data = [] then
    cs_set which false
    pure ret
  else
    put (.dc true)
    let ret ← spi_write data
    cs_set which false
    pure ret

/-- One call after the other, up to the first error. -/
def each_until {σ α : Type} (f : α → StateM σ Int) : List α → StateM σ Int
  | [] => pure 0
  | a :: l => do
    let ret ← f a
    if ret < 0 then pure ret else each_until f l

/-- The registers of `epd_init_registers`, in its order. -/
def init_registers : List (Cs × UInt8 × Bytes) :=
  [(.EL133_CS0, 0x74, [0xC0, 0x1C, 0x1C, 0xCC, 0xCC, 0xCC, 0x15, 0x15, 0x55]),
    (.EL133_CS_BOTH, 0xF0, [0x49, 0x55, 0x13, 0x5D, 0x05, 0x10]), (.EL133_CS_BOTH, 0x00, [0xDF, 0x6B]),
    (.EL133_CS0, 0xA5, [0x44, 0x54, 0x00]), (.EL133_CS_BOTH, 0xE6, [0x00]), (.EL133_CS_BOTH, 0x30, [0x08]),
    (.EL133_CS_BOTH, 0x50, [0xF7]), (.EL133_CS_BOTH, 0x60, [0x03, 0x03]),
    (.EL133_CS0, 0x03, [0x00, 0xC0, 0x03, 0xA4]), (.EL133_CS_BOTH, 0x86, [0x10]), (.EL133_CS_BOTH, 0xE3, [0x22]),
    (.EL133_CS_BOTH, 0xE0, [0x01]), (.EL133_CS_BOTH, 0x61, [0x04, 0xB0, 0x03, 0x20]),
    (.EL133_CS0, 0x01, [0x0F, 0x00, 0x28, 0x2C, 0x28, 0x38]), (.EL133_CS0, 0xB6, [0x07]),
    (.EL133_CS0, 0x06, [0xD8, 0x18]), (.EL133_CS0, 0xB7, [0x01]), (.EL133_CS0, 0x05, [0xD8, 0x18]),
    (.EL133_CS0, 0xB0, [0x01]), (.EL133_CS0, 0xB1, [0x02])]

def epd_init_registers : StateM Driver Int :=
  each_until (fun (which, cmd, val) => xfer_cmd which cmd val) init_registers

/-- The commands of `refresh`; a wait follows each of them. -/
def refresh_commands : List (Cs × UInt8 × Bytes) :=
  [(.EL133_CS0, EL133_PON, []), (.EL133_CS1, EL133_PON, []), (.EL133_CS_BOTH, EL133_DRF, V_DRF),
    (.EL133_CS0, EL133_POF, V_POF), (.EL133_CS1, EL133_POF, V_POF)]

def xfer_and_wait (which : Cs) (cmd : UInt8) (data : Bytes) : StateM Driver Int := do
  let ret ← xfer_cmd which cmd data
  if ret < 0 then pure ret else wait_ready

def refresh : StateM Driver Int := each_until (fun (which, cmd, data) => xfer_and_wait which cmd data) refresh_commands

/-- With the pins as `gpio_pin_configure_dt` leaves them. Without a panel the registers stay as they are. -/
def el133_init (spi : List (Option (Nat × Nat))) (busy : List Bool) : Int × Driver :=
  let (ret, d) := wait_ready ⟨false, false, [], spi, busy⟩
  if ret < 0 then (0, d) else epd_init_registers d

/-- The registers are written unless the panel does not get ready. -/
theorem init_cases (spi : List (Option (Nat × Nat))) (busy : List Bool) :
    (el133_init spi busy).2 = (wait_ready ⟨false, false, [], spi, busy⟩).2 ∨
      (el133_init spi busy).2 = (epd_init_registers (wait_ready ⟨false, false, [], spi, busy⟩).2).2 := by
  cases hready : wait_ready ⟨false, false, [], spi, busy⟩ with
  | mk ret d =>
    simp only [el133_init, hready]
    split
    · exact .inl rfl
    · exact .inr rfl

/-! ## Frames -/

section
variable {σ : Type} (fill : Nat → StateM σ (Except Int Bytes))

/-- A call of the driver, next to the state of the callback. -/
def drv {α : Type} (m : StateM Driver α) : StateM (Driver × σ) α := fun s => ((m s.1).1, ((m s.1).2, s.2))

/-- The loop of `stream_half`, once the command is out. -/
def stream_loop (filled : Nat) (s : Driver × σ) : Int × (Driver × σ) :=
  if _hf : filled < EL133_HALF_BYTES then
    let want := min EL133_CHUNK (EL133_HALF_BYTES - filled)
    match fill want s.2 with
    | (.error e, u) => (e, (s.1, u))
    | (.ok chunk, u) =>
      if _hn : chunk.length ≠ want then (-EINVAL, (s.1, u))
      else
        match spi_write chunk s.1 with
        | (ret, d) => if ret < 0 then (ret, (d, u)) else stream_loop (filled + chunk.length) (d, u)
  else (0, s)
termination_by EL133_HALF_BYTES - filled
decreasing_by
  have : 0 < EL133_CHUNK := by decide
  omega

def stream_half (which : Cs) : StateM (Driver × σ) Int := do
  drv (cs_set which true)
  drv (put (.dc false))
  let ret ← drv (spi_write [EL133_DTM])
  if ret < 0 then
    drv (cs_set which false)
    pure ret
  else
    drv (put (.dc true))
    let ret ← stream_loop fill 0
    drv (cs_set which false)
    pure ret

/-- The end of a load: the frame is shown at once unless blanking is on. -/
def loaded : StateM Driver Int := fun d =>
  let d := { d with dirty := true }
  if d.blanking_on then (0, d)
  else
    let (ret, d) := refresh d
    if ret < 0 then (ret, d) else (0, { d with dirty := false })

def el133uf1_stream_write : StateM (Driver × σ) Int := do
  let ret ← stream_half fill .EL133_CS0
  if ret < 0 then pure ret
  else
    let ret ← stream_half fill .EL133_CS1
    if ret < 0 then pure ret else drv loaded

end

def el133_blanking_on : StateM Driver Int := fun d => (0, { d with blanking_on := true })

def el133_blanking_off : StateM Driver Int := fun d =>
  if d.dirty then
    let (ret, d) := refresh d
    (ret, { d with dirty := if ret = 0 then false else d.dirty, blanking_on := false })
  else (0, { d with blanking_on := false })

end EinkNode.El133
