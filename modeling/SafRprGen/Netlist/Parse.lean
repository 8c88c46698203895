/-
Module: SafRprGen.Netlist.Parse
Layer: Netlist
Purpose: The passes of `read_nl` over the text of a netlist. `read_1st` counts gates and ports, `read_2nd`
  fills the gate records, `store_pi_po` looks up the ports. A loop over the text has the length of the
  text as fuel.
Main exports: ModuleRecord, read1st, readPin, read2nd, storePorts
-/
import SafRprGen.Lib.Loop
import SafRprGen.Netlist.Token

namespace SafRprGen

open CText

/-- The fuel of a loop that takes something off the text in every pass. -/
def fuelFor (text : List Char) : Nat := text.length + 1

/-! ### Ports -/

/-- The loop over the tokens of a declaration, up to the one that `;` ends. -/
def portLoop {σ : Type} (body : σ → Token → Except Stop σ) : Nat → σ → Token → Except Stop (σ × Token)
  | 0, _, _ => .error .undefined
  | fuel + 1, s, tok =>
      if tok.code = 1 ∨ tok.code = 2 then .ok (s, tok)
      else
        match body s tok with
        | .error e => .error e
        | .ok s =>
            match statementToken delimiter0 tok.rest with
            | .error e => .error e
            | .ok tok => portLoop body fuel s tok

/-- The tokens that are skipped in a declaration without bits. -/
def isClock (tok : Token) : Bool := tok.str = "CLK".toList || tok.str = "clk".toList

/-- The number of bits of a range. -/
def bitCount (bit1 bit2 : Int) : Nat := (bit1 - bit2).natAbs + 1

/-- An `int` can hold the number. -/
def isInt (i : Int) : Bool := decide (-(intMax : Int) - 1 ≤ i) && decide (i ≤ intMax)

/-- A bit of a range; `atoi` of a number that is no `int` is undefined. -/
def rangeBit (str : CStr) : Except Stop Int := if isInt (atoi str) then .ok (atoi str) else .error .undefined

/-- The number of bits is an `int`. -/
def bitsFit (bit1 bit2 : Int) : Except Stop Unit :=
  if bitCount bit1 bit2 ≤ intMax then .ok () else .error .undefined

/-- The shape that `calc_pi_po` and `read_pi_po` share: `vector` handles a port with a bit range and
`scalar` one without. -/
def declaration {σ : Type} (vector : Int → Int → σ → CStr → Except Stop σ)
    (scalar : σ → CStr → Except Stop σ) (s : σ) (text : List Char) : Except Stop (σ × List Char) :=
  let text := text.dropWhile fun ch => ch = ' ' || ch = '\t'
  if text.head? = some '[' then do
    let tok ← statementToken delimiter1 text.tail
    let bit1 ← rangeBit tok.str
    let tok ← statementToken delimiter1 tok.rest
    let bit2 ← rangeBit tok.str
    bitsFit bit1 bit2
    let tok ← statementToken delimiter0 tok.rest
    let (s, tok) ← portLoop (fun s tok => vector bit1 bit2 s tok.str) (fuelFor text) s tok
    let s ← if tok.code = 1 then vector bit1 bit2 s tok.str else .ok s
    .ok (s, tok.rest)
  else do
    let tok ← statementToken delimiter0 text
    let (s, tok) ← portLoop
      (fun s tok => if isClock tok then .ok s else if tok.code = 0 then scalar s tok.str else .ok s)
      (fuelFor text) s tok
    let s ← if !isClock tok && tok.code = 1 then scalar s tok.str else .ok s
    .ok (s, tok.rest)

/-- `calc_pi_po`: the number of ports. -/
def calcPiPo (text : List Char) : Except Stop (Nat × List Char) :=
  declaration (fun bit1 bit2 num _ => .ok (num + bitCount bit1 bit2)) (fun num _ => .ok (num + 1)) 0 text

/-- The counters of `read_1st`. -/
structure Counts where
  nModule : Nat
  nPi : Nat
  nPo : Nat
deriving DecidableEq, Repr

/-- The counters are `int`s. -/
def Counts.fit (n : Counts) : Except Stop Counts :=
  if n.nModule ≤ intMax ∧ n.nPi ≤ intMax ∧ n.nPo ≤ intMax then .ok n else .error .undefined

/-- The body of the loop of `read_1st`. -/
def read1stStep (s : Counts × List Char) : Except Stop (Option (Counts × List Char)) :=
  let (n, text) := s
  match getToken delimiter1 text with
  | .error e => .error e
  | .ok none => .ok none
  | .ok (some tok) =>
      if tok.str = "module".toList ∨ tok.str = "wire".toList then
        (skipStatement tok.rest).map fun rest => some (n, rest)
      else if tok.str = "assign".toList then .error (.error 9 [])
      else if tok.str = "endmodule".toList then .ok (some (n, tok.rest))
      else if tok.str = "input".toList then
        (calcPiPo tok.rest).bind fun (num, rest) =>
          (Counts.fit { n with nPi := n.nPi + num }).map fun n => some (n, rest)
      else if tok.str = "output".toList then
        (calcPiPo tok.rest).bind fun (num, rest) =>
          (Counts.fit { n with nPo := n.nPo + num }).map fun n => some (n, rest)
      else
        (Counts.fit { n with nModule := n.nModule + 1 }).bind fun n =>
          (skipStatement tok.rest).map fun rest => some (n, rest)

/-- `read_1st`. -/
def read1st (text : List Char) : Except Stop Counts :=
  (Loop.exceptLoop .undefined read1stStep (fuelFor text) (⟨0, 0, 0⟩, text)).map (·.1)

/-! ### Gate records -/

/-- `Module_Array_MEM` while its pins are read; unconnected pins are `none`. -/
structure ModuleRecord where
  nameIns : CStr
  type : GateType
  nIn : Int
  outName : Option CStr
  inName : List (Option CStr)
deriving DecidableEq, Repr

/-- The index of a pin of `pin_name_array`. -/
def pinIndex (ch : Char) : Option Nat :=
  let index := ['A', 'B', 'C', 'D', 'E', 'F', 'G', 'H', 'I', 'J'].idxOf ch
  if index < 10 then some index else none

/-- `read_n_in`. -/
def readNIn (inNum : Int) (str : CStr) : Int :=
  if str = "BUF".toList then 1
  else if str = "INV".toList then 1
  else if str = "DFF".toList then 1
  else if str = "RDFF".toList then 2
  else if str = "DFFS".toList then 3
  else if str = "RDFFS".toList then 4
  else inNum

/-- `gate_types`. -/
def gateTypes : List (CStr × GateType) :=
  [("AND".toList, .AND), ("NAND".toList, .NAND), ("OR".toList, .OR), ("NOR".toList, .NOR),
    ("BUF".toList, .BUF), ("INV".toList, .INV), ("EXOR".toList, .EXOR), ("EXNOR".toList, .EXNOR),
    ("DFF".toList, .DFF), ("RDFF".toList, .RDFF), ("DFFS".toList, .DFFS), ("RDFFS".toList, .RDFFS)]

/-- `read_module_type`. -/
def readModuleType (str : CStr) (nIn : Int) (text : List Char) : Except Stop GateType :=
  match gateTypes.lookup str with
  | none => .error (.error 8 str)
  | some type =>
      if (type = .EXOR ∨ type = .EXNOR) ∧ nIn ≠ 2 then
        match statementToken delimiter0 text with
        | .error e => .error e
        | .ok tok => .error (.error 1 tok.str)
      else .ok type

/-- `set_input_pin`; an index of `none` is the `-1` of a pin that no input has. -/
def setInputPin (r : ModuleRecord) (index : Option Nat) (signal : CStr) : Except Stop ModuleRecord :=
  match index with
  | none => .error (.error 2 r.nameIns)
  | some i =>
      if r.inName[i]? = some none then .ok { r with inName := r.inName.set i (some signal) }
      else .error (.error 2 r.nameIns)

/-- The input that a pin names, when it is neither an output nor a clock. -/
def inputIndex (type : GateType) (pin : CStr) : Option Nat :=
  if pin.head? = some 'D' ∧ type.isFF = true then some 0
  else if pin = "CD".toList then
    if type = .RDFF then some 1 else if type = .RDFFS then some 3 else none
  else if pin = "TI".toList then if type = .DFFS ∨ type = .RDFFS then some 1 else none
  else if pin = "TE".toList then if type = .DFFS ∨ type = .RDFFS then some 2 else none
  else pin.head?.bind pinIndex

/-- The pin is an output. -/
def isOutputPin (pin : CStr) : Bool := pin.head? = some 'Z' || pin.head? = some 'Q'

/-- The pin is a clock. -/
def isClockPin (pin : CStr) : Bool := pin = "CP".toList

/-- One pin with its signal. -/
def setPin (r : ModuleRecord) (pin signal : CStr) : Except Stop ModuleRecord :=
  if isOutputPin pin then
    if r.outName.isSome then .error (.error 2 r.nameIns)
    else .ok { r with outName := some signal }
  else if isClockPin pin then .ok r
  else setInputPin r (inputIndex r.type pin) signal

/-- The state of the loop of `read_pin`; `i` is its counter. -/
structure PinState where
  record : ModuleRecord
  i : Int
  text : List Char
deriving DecidableEq, Repr

/-- The body of the loop of `read_pin`. -/
def readPinStep (s : PinState) : Except Stop (Option PinState) :=
  if s.i < s.record.nIn + 1 then
    match nextWord s.text with
    | .error e => .error e
    | .ok pin =>
        match nextWord pin.rest with
        | .error e => .error e
        | .ok signal =>
            match setPin s.record pin.str signal.str with
            | .error e => .error e
            | .ok record =>
                .ok (some ⟨record, if isClockPin pin.str then s.i else s.i + 1, signal.rest⟩)
  else .ok none

/-- `read_pin`. -/
def readPin (r : ModuleRecord) (text : List Char) : Except Stop (ModuleRecord × List Char) :=
  match Loop.exceptLoop .undefined readPinStep (fuelFor text) ⟨r, 0, text⟩ with
  | .error e => .error e
  | .ok s =>
      if s.record.outName.isNone || s.record.inName.any (·.isNone) then
        .error (.error 2 s.record.nameIns)
      else .ok (s.record, s.text)

/-- The state of `read_2nd`: `in_num`, the records filled so far and the rest of the file. -/
structure SecondState where
  inNum : Int
  records : List ModuleRecord
  text : List Char
deriving DecidableEq, Repr

/-- The record of a gate: what `read_2nd` does with a gate name before its pins. -/
def readGateHead (inNum : Int) (tok : Token) : Except Stop (ModuleRecord × List Char) :=
  let nIn := readNIn inNum tok.str
  match readModuleType tok.str nIn tok.rest with
  | .error e => .error e
  | .ok type =>
      match statementToken delimiter0 tok.rest with
      | .error e => .error e
      | .ok ins => .ok (⟨ins.str, type, nIn, none, List.replicate nIn.toNat none⟩, ins.rest)

/-- The body of the loop of `read_2nd`. The array has the records that `read_1st` has counted, and one behind
its end is undefined. -/
def read2ndStep (nModule : Nat) (s : SecondState) : Except Stop (Option SecondState) :=
  match getTypeToken s.inNum s.text with
  | .error e => .error e
  | .ok none => .ok none
  | .ok (some (tok, inNum)) =>
      if tok.str = "module".toList ∨ tok.str = "input".toList ∨ tok.str = "output".toList ∨
          tok.str = "wire".toList then
        (skipStatement tok.rest).map fun rest => some { s with inNum, text := rest }
      else if tok.str = "endmodule".toList then .ok (some { s with inNum, text := tok.rest })
      else if nModule ≤ s.records.length then .error .undefined
      else do
        let (record, text) ← readGateHead inNum tok
        let (record, text) ← readPin record text
        let rest ← skipStatement text
        .ok (some ⟨0, s.records ++ [record], rest⟩)

/-- `read_2nd`. -/
def read2nd (nModule : Nat) (text : List Char) : Except Stop (List ModuleRecord) :=
  (Loop.exceptLoop .undefined (read2ndStep nModule) (fuelFor text) ⟨0, [], text⟩).map (·.records)

/-! ### Looking up the ports -/

/-- The names of the bits of a port. -/
def bitNames (bit1 bit2 : Int) (str : CStr) : List CStr :=
  let startBit := if bit1 ≤ bit2 then bit1 else bit2
  (List.range (bitCount bit1 bit2)).map fun i =>
    str ++ '[' :: (toString (startBit + (i : Int))).toList ++ [']']

/-- `read_pi_po` with `search` for `hash_search_pi_po`. -/
def readPiPo {σ : Type} (search : σ → CStr → Except Stop σ) (s : σ) (text : List Char) :
    Except Stop (σ × List Char) :=
  declaration (fun bit1 bit2 s str => (bitNames bit1 bit2 str).foldlM search s) search s text

/-- The body of the loop of `store_pi_po`; `search true` looks for an input, `search false` for an
output. -/
def storePortsStep {σ : Type} (search : Bool → σ → CStr → Except Stop σ) (s : σ × List Char) :
    Except Stop (Option (σ × List Char)) :=
  match getToken delimiter0 s.2 with
  | .error e => .error e
  | .ok none => .ok none
  | .ok (some tok) =>
      if tok.str = "input".toList then (readPiPo (search true) s.1 tok.rest).map some
      else if tok.str = "output".toList then (readPiPo (search false) s.1 tok.rest).map some
      else if tok.str = "endmodule".toList then .ok (some (s.1, tok.rest))
      else (skipStatement tok.rest).map fun rest => some (s.1, rest)

/-- `store_pi_po`. -/
def storePorts {σ : Type} (search : Bool → σ → CStr → Except Stop σ) (s : σ) (text : List Char) :
    Except Stop σ :=
  (Loop.exceptLoop .undefined (storePortsStep search) (fuelFor text) (s, text)).map (·.1)

end SafRprGen
