import TetrisFpga.Usb.Task

/-!
# The main loop

`main.c`: the display of reports on the PIOs, and the loop that runs the driver, the USB task
and the polls. `main` runs the loop for a number of rounds.
-/

namespace TetrisFpga.Usb
open Program

section Main

variable {χ : Type} [Platform χ]

def setLED (led : ℕ) : Prog χ Unit :=
  setPio fun p => { p with leds := p.leds ||| (0x001 : BitVec 14) <<< led }

def clearLED (led : ℕ) : Prog χ Unit :=
  setPio fun p => { p with leds := p.leds &&& ~~~((0x001 : BitVec 14) <<< led) }

def showLED (on : Bool) (led : ℕ) : Prog χ Unit := if on then setLED led else clearLED led

/-- The common text of `printSignedHex0` and `printSignedHex1`. The value is a `signed char`
and is not changed by the negation of -128. -/
def printSignedHex (signLED hundredsLED : ℕ) (keep : BitVec 16) (tensShift onesShift : ℕ)
    (value : BitVec 8) : Prog χ Unit := do
  let pioVal := (← getPio).hexDigits
  showLED (value.toInt < 0) signLED
  let value := if value.toInt < 0 then -value else value
  showLED (value.toInt.tdiv 100 ≠ 0) hundredsLED
  let value := BitVec.ofInt 8 (value.toInt.tmod 100)
  let tens := BitVec.ofInt 8 (value.toInt.tdiv 10)
  let ones := BitVec.ofInt 8 (value.toInt.tmod 10)
  let pioVal := pioVal &&& keep
  let pioVal := pioVal ||| tens.setWidth 16 <<< tensShift
  let pioVal := pioVal ||| ones.setWidth 16 <<< onesShift
  setPio fun p => { p with hexDigits := pioVal }

def printSignedHex0 (value : BitVec 8) : Prog χ Unit :=
  printSignedHex 11 13 0x00ff 12 8 value

def printSignedHex1 (value : BitVec 8) : Prog χ Unit :=
  printSignedHex 10 12 0xff00 4 0 value

def setKeycode (keycode : BYTE) : Prog χ Unit := setPio fun p => { p with keycode := keycode }

/-- `addr`, the hard-wired USB address. -/
def addr : BYTE := 1

/-- `GetDriverandReport`: the class of the last device in the table. The requests are only
reported. -/
def getDriverandReport (fuel : Fuel) : Prog χ BYTE := do
  let h ← getHost
  -- the loop does not stop at the first one
  let device := addresses.foldl (fun device i =>
    if (h.devtable i).epinfo ≠ none then (h.devtable i).devclass else device) 0xff
  declare .tmpbyte
  let _ ← xferGetIdle fuel addr 0 (← getHost).hidDevice.interface 0 ⟨.tmpbyte, 0⟩
  let _ ← xferGetProto fuel addr 0 (← getHost).hidDevice.interface ⟨.tmpbyte, 0⟩
  return device

/-- A keyboard report is published; `NAK` means no new data. -/
def pollKeyboard (fuel : Fuel) : Prog χ Unit := do
  let rcode ← kbdPoll fuel ⟨.kbdbuf, 0⟩
  if rcode = 0 then
    setKeycode (← load ⟨.kbdbuf, 2⟩)
    printSignedHex0 (← load ⟨.kbdbuf, 2⟩)
    printSignedHex1 (← load ⟨.kbdbuf, 3⟩)

def pollMouse (fuel : Fuel) : Prog χ Unit := do
  let rcode ← mousePoll fuel ⟨.mousebuf, 0⟩
  if rcode = 0 then
    printSignedHex0 (← load ⟨.mousebuf, 1⟩)
    printSignedHex1 (← load ⟨.mousebuf, 2⟩)
    let button ← load ⟨.mousebuf, 0⟩
    showLED (button &&& 0x04 ≠ 0) 2
    showLED (button &&& 0x02 ≠ 0) 1
    showLED (button &&& 0x01 ≠ 0) 0

def setRunningdebugflag (v : BYTE) : Prog χ Unit :=
  setHost fun h => { h with runningdebugflag := v }

def setErrorflag (v : BYTE) : Prog χ Unit := setHost fun h => { h with errorflag := v }

/-- What the loop does in `USB_STATE_RUNNING`. -/
def whileRunning (fuel : Fuel) : Prog χ Unit := do
  let h ← getHost
  if h.runningdebugflag = 0 then
    setRunningdebugflag 1
    setLED 9
    let device ← getDriverandReport fuel
    setHost fun h => { h with device := device }
  else if h.device = 1 then
    pollKeyboard fuel
  else if h.device = 2 then
    pollMouse fuel

/-- The hardware is reset after the device has been running. -/
def restart (fuel : Fuel) : Prog χ Unit := do
  setRunningdebugflag 0
  max3421eInit fuel
  usbInit

/-- What the loop does in the other states, except in `USB_STATE_ERROR`. -/
def whileNotRunning (fuel : Fuel) : Prog χ Unit := do
  let flag := (← getHost).runningdebugflag
  when (flag ≠ 0) (restart fuel)
  setErrorflag 0
  clearLED 9

/-- One round of the loop. -/
def mainRound (fuel : Fuel) : Prog χ Unit := do
  max3421eTask
  usbTask fuel
  let h ← getHost
  if h.usbTaskState = usbStateRunning then
    whileRunning fuel
  else if h.usbTaskState = usbStateError then
    if h.errorflag = 0 then
      setErrorflag 1
      clearLED 9
  else
    whileNotRunning fuel

/-- What `main` does before the loop. -/
def mainInit (fuel : Fuel) : Prog χ Unit := do
  let _ ← maxRegRd (0x12 <<< 3)
  max3421eInit fuel
  usbInit

/-- `main`, for `n` rounds of the loop. -/
def main (fuel : Fuel) (n : ℕ) : Prog χ Unit := do
  mainInit fuel
  times (mainRound fuel) n

/-- Power-up: the variables have their initial values, and `device`, the buffers and the PIOs
may hold anything. -/
def powerUp (chip : χ) (device : BYTE) (mem : Obj → ℤ → BYTE) (pio : Pio) : World χ where
  chip := chip
  host := { device := device }
  mem := mem
  pio := pio

end Main

/-! ## Classes of programs with the display -/

section Classes

variable {χ : Type} {C : ∀ α : Type, Prog χ α → Prop}

/-- An assignment to the PIOs of the display. -/
def LeavesKeycode (f : Pio → Pio) : Prop := ∀ p, (f p).keycode = p.keycode

/-- `C` has what the display of a report is made of. -/
structure Shows (C : ∀ α : Type, Prog χ α → Prop) : Prop extends Closed C where
  load : ∀ p, C BYTE (load p)
  getPio : C Pio getPio
  setPio : ∀ f, LeavesKeycode f → C Unit (setPio f)

namespace Shows

theorem showLED (hC : Shows C) (on : Bool) (led : ℕ) : C Unit (showLED on led) :=
  hC.ite (hC.setPio _ fun _ => rfl) (hC.setPio _ fun _ => rfl)

theorem printSignedHex (hC : Shows C) (signLED hundredsLED : ℕ) (keep : BitVec 16)
    (tensShift onesShift : ℕ) (value : BitVec 8) :
    C Unit (printSignedHex signLED hundredsLED keep tensShift onesShift value) :=
  hC.bind hC.getPio fun _ => hC.bind (hC.showLED _ _) fun _ =>
    hC.bind (hC.showLED _ _) fun _ => hC.setPio _ fun _ => rfl

variable [Platform χ]

theorem pollKeyboard (hC : Shows C) (hkeycode : ∀ keycode, C Unit (setKeycode keycode))
    {fuel : Fuel} (hpoll : C BYTE (hidPoll fuel ⟨.kbdbuf, 0⟩)) : C Unit (pollKeyboard fuel) := by
  refine hC.bind hpoll fun _ => hC.ite ?_ (hC.pure _)
  refine hC.bind (hC.load _) fun _ => hC.bind (hkeycode _) fun _ => ?_
  refine hC.bind (hC.load _) fun _ => hC.bind (hC.printSignedHex _ _ _ _ _ _) fun _ => ?_
  exact hC.bind (hC.load _) fun _ => hC.printSignedHex _ _ _ _ _ _

theorem pollMouse (hC : Shows C) {fuel : Fuel} (hpoll : C BYTE (hidPoll fuel ⟨.mousebuf, 0⟩)) :
    C Unit (pollMouse fuel) := by
  refine hC.bind hpoll fun _ => hC.ite ?_ (hC.pure _)
  refine hC.bind (hC.load _) fun _ => hC.bind (hC.printSignedHex _ _ _ _ _ _) fun _ => ?_
  refine hC.bind (hC.load _) fun _ => hC.bind (hC.printSignedHex _ _ _ _ _ _) fun _ => ?_
  refine hC.bind (hC.load _) fun _ => hC.bind (hC.showLED _ _) fun _ => ?_
  exact hC.bind (hC.showLED _ _) fun _ => hC.showLED _ _

/-- What the loop does in `USB_STATE_RUNNING`: requests, polls and the display. -/
theorem whileRunning (hC : Shows C) (hkeycode : ∀ keycode, C Unit (setKeycode keycode))
    (hget : C Host getHost) (hdeclare : ∀ o, C Unit (declare o))
    (hflag : ∀ v, C Unit (setRunningdebugflag v))
    (hdevice : ∀ v, C Unit (setHost fun h => { h with device := v })) {fuel : Fuel}
    (hpoll : ∀ o, C BYTE (hidPoll fuel ⟨o, 0⟩))
    (hidle : ∀ interface, C BYTE (xferGetIdle fuel addr 0 interface 0 ⟨.tmpbyte, 0⟩))
    (hproto : ∀ interface, C BYTE (xferGetProto fuel addr 0 interface ⟨.tmpbyte, 0⟩)) :
    C Unit (whileRunning fuel) := by
  refine hC.bind hget fun _ => hC.ite ?_ (hC.ite (hC.pollKeyboard hkeycode (hpoll _))
    (hC.ite (hC.pollMouse (hpoll _)) (hC.pure ())))
  refine hC.bind (hflag 1) fun _ => hC.bind (hC.setPio _ fun _ => rfl) fun _ => ?_
  refine hC.bind ?_ hdevice
  refine hC.bind hget fun _ => hC.bind (hdeclare _) fun _ => hC.bind hget fun _ => ?_
  refine hC.bind (hidle _) fun _ => hC.bind hget fun _ => ?_
  exact hC.bind (hproto _) fun _ => hC.pure _

end Shows

end Classes

end TetrisFpga.Usb
