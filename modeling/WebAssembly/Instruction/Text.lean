import WebAssembly.Instruction.Basic

/-!
# Text of instructions

The text of an instruction is its mnemonic and its immediates. The text of a body has a line for
each instruction, two blanks for each construct around it, and an `end` line for each construct; an
`else` line stands only before an else part that is not empty.
-/

namespace WebAssembly

/-- Suffix that tells signed and unsigned operators apart. -/
def Sign.suffix : Sign → String
  | .signed => "_s"
  | .unsigned => "_u"

/-- Name of an operator after its type. -/
def IntUnary.text : IntUnary → String
  | .clz => "clz"
  | .ctz => "ctz"
  | .popcnt => "popcnt"

/-- Name of an operator after its type. -/
def IntBinary.text : IntBinary → String
  | .add => "add"
  | .sub => "sub"
  | .mul => "mul"
  | .div s => "div" ++ s.suffix
  | .rem s => "rem" ++ s.suffix
  | .and => "and"
  | .or => "or"
  | .xor => "xor"
  | .shl => "shl"
  | .shr s => "shr" ++ s.suffix
  | .rotl => "rotl"
  | .rotr => "rotr"

/-- Name of a comparison after its type. -/
def IntCompare.text : IntCompare → String
  | .eq => "eq"
  | .ne => "ne"
  | .lt s => "lt" ++ s.suffix
  | .gt s => "gt" ++ s.suffix
  | .le s => "le" ++ s.suffix
  | .ge s => "ge" ++ s.suffix

/-- Name of an operator after its type. -/
def FloatUnary.text : FloatUnary → String
  | .abs => "abs"
  | .neg => "neg"
  | .ceil => "ceil"
  | .floor => "floor"
  | .trunc => "trunc"
  | .nearest => "nearest"
  | .sqrt => "sqrt"

/-- Name of an operator after its type. -/
def FloatBinary.text : FloatBinary → String
  | .add => "add"
  | .sub => "sub"
  | .mul => "mul"
  | .div => "div"
  | .min => "min"
  | .max => "max"
  | .copysign => "copysign"

/-- Name of a comparison after its type. -/
def FloatCompare.text : FloatCompare → String
  | .eq => "eq"
  | .ne => "ne"
  | .lt => "lt"
  | .gt => "gt"
  | .le => "le"
  | .ge => "ge"

/-- What a conversion does, in front of the name of its source type. -/
def Conversion.verb : Conversion → String
  | .wrap => "wrap"
  | .extend _ => "extend"
  | .truncate _ _ _ => "trunc"
  | .convert _ _ _ => "convert"
  | .demote => "demote"
  | .promote => "promote"
  | .floatBits _ => "reinterpret"
  | .intBits _ => "reinterpret"

/-- Suffix of a conversion that reads or gives signed and unsigned integers. -/
def Conversion.suffix : Conversion → String
  | .extend s => s.suffix
  | .truncate _ _ s => s.suffix
  | .convert _ _ s => s.suffix
  | _ => ""

/-- Mnemonic of a conversion: target, verb, source. -/
def Conversion.text (c : Conversion) : String :=
  c.target.text ++ "." ++ c.verb ++ "_" ++ c.source.text ++ c.suffix

/-- Mnemonic of a numeric operator. -/
def Numeric.text : Numeric → String
  | .eqz t => t.text ++ ".eqz"
  | .intCompare t op => t.text ++ "." ++ op.text
  | .floatCompare t op => t.text ++ "." ++ op.text
  | .intUnary t op => t.text ++ "." ++ op.text
  | .intBinary t op => t.text ++ "." ++ op.text
  | .floatUnary t op => t.text ++ "." ++ op.text
  | .floatBinary t op => t.text ++ "." ++ op.text
  | .conversion c => c.text

/-- Mnemonic of a load. -/
def LoadOp.text : LoadOp → String
  | .full t => t.text ++ ".load"
  | .byte t s => t.text ++ ".load8" ++ s.suffix
  | .half t s => t.text ++ ".load16" ++ s.suffix
  | .word s => "i64.load32" ++ s.suffix

/-- Mnemonic of a store. -/
def StoreOp.text : StoreOp → String
  | .full t => t.text ++ ".store"
  | .byte t => t.text ++ ".store8"
  | .half t => t.text ++ ".store16"
  | .word => "i64.store32"

/-- Mnemonic. -/
def Plain.mnemonic : Plain → String
  | .drop => "drop"
  | .select => "select"
  | .localGet _ => "local.get"
  | .localSet _ => "local.set"
  | .localTee _ => "local.tee"
  | .globalGet _ => "global.get"
  | .globalSet _ => "global.set"
  | .load op _ => op.text
  | .store op _ => op.text
  | .memorySize => "memory.size"
  | .memoryGrow => "memory.grow"
  | .const v => v.type.text ++ ".const"
  | .numeric op => op.text

/-- Mnemonic. -/
def Instruction.mnemonic : Instruction → String
  | .unreachable => "unreachable"
  | .nop => "nop"
  | .block _ _ => "block"
  | .loop _ _ => "loop"
  | .ifElse _ _ _ => "if"
  | .br _ => "br"
  | .brIf _ => "br_if"
  | .brTable _ _ => "br_table"
  | .ret => "return"
  | .call _ => "call"
  | .callIndirect _ => "call_indirect"
  | .plain op => op.mnemonic

/-- An index after a blank. -/
def indexText (i : UInt32) : String :=
  " " ++ toString i.toNat

/-- A block type after a blank, nothing where there is no result. -/
def BlockType.text : BlockType → String
  | .empty => ""
  | .value t => " " ++ t.text

variable [FloatPrinter]

/-- Immediates, each after a blank. -/
def Plain.immediates : Plain → String
  | .localGet i => indexText i
  | .localSet i => indexText i
  | .localTee i => indexText i
  | .globalGet i => indexText i
  | .globalSet i => indexText i
  | .load _ arg => indexText arg.align ++ indexText arg.offset
  | .store _ arg => indexText arg.align ++ indexText arg.offset
  | .const v => " " ++ v.numberText
  | _ => ""

/-- Immediates, each after a blank. -/
def Instruction.immediates : Instruction → String
  | .block t _ => t.text
  | .loop t _ => t.text
  | .ifElse t _ _ => t.text
  | .br l => indexText l
  | .brIf l => indexText l
  | .brTable ls d => String.join (ls.map indexText) ++ indexText d
  | .call f => indexText f
  | .callIndirect t => " (type" ++ indexText t ++ ")"
  | .plain op => op.immediates
  | _ => ""

/-- Mnemonic and immediates; bodies are left out. -/
def Instruction.text (i : Instruction) : String :=
  i.mnemonic ++ i.immediates

/-- A line at a nesting level. -/
def indented (level : Nat) (s : String) : String :=
  String.ofList (List.replicate (2 * level) ' ') ++ s

mutual

/-- The lines of an instruction and of the bodies in it. -/
def Instruction.lines (level : Nat) : Instruction → List String
  | .block t body =>
    indented level (Instruction.text (.block t body)) ::
      (Expr.lines (level + 1) body ++ [indented level "end"])
  | .loop t body =>
    indented level (Instruction.text (.loop t body)) ::
      (Expr.lines (level + 1) body ++ [indented level "end"])
  | .ifElse t thenBody elseBody =>
    indented level (Instruction.text (.ifElse t thenBody elseBody)) ::
      (Expr.lines (level + 1) thenBody ++
        ((if elseBody.isEmpty then [] else [indented level "else"]) ++
          (Expr.lines (level + 1) elseBody ++ [indented level "end"])))
  | i => [indented level i.text]

/-- The lines of a sequence. -/
def Expr.lines (level : Nat) : List Instruction → List String
  | [] => []
  | i :: is => Instruction.lines level i ++ Expr.lines level is

end

/-- Each line followed by a line feed. -/
def unlines (ls : List String) : String :=
  String.join (ls.map (· ++ "\n"))

/-- The tree text of a sequence. -/
def Expr.treeText (body : Expr) : String :=
  unlines (Expr.lines 0 body)

/-- The tree text of one instruction. -/
def Instruction.treeText (i : Instruction) : String :=
  unlines (i.lines 0)

/-- The instructions of a sequence on one line, bodies left out. -/
def Expr.lineText (body : Expr) : String :=
  String.intercalate " " (body.map Instruction.text)

end WebAssembly
