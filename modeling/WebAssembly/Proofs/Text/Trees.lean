import Mathlib.Data.List.Nodup
import WebAssembly.Instruction.Opcode
import WebAssembly.Instruction.Text
import WebAssembly.Proofs.Text.Hexadecimal

/-!
# The text of a body tells the body

The tree text of a sequence has a line for each instruction and for each `else` and `end`. Main
result: `tree_text_faithful`, different sequences have different texts, whatever lawful printer
writes the floats in them. The argument goes down the layers of the text.

* Line feeds end lines and stand in none, so a text tells its lines (`unlines_inj`).
* The first character that is no blank ends the indentation, so a line tells its level and the rest
  of it (`indented_inj`).
* Blanks stand in front of immediates and in none, so the rest tells its words (`spaced_inj`).
* Mnemonics are distinct, and each immediate is told by its words, so the words tell an instruction
  but for the bodies in it (`Instruction.outline_of_text`).
* `else` and `end` are no mnemonics, so the lines of a body end where one of them closes it
  (`Expr.lines_inj`).
-/

namespace WebAssembly

open Text

/-! ## Mnemonics

Instructions are grouped into kinds, finitely many, whose mnemonics are compared by computation.
-/

/-- The instruction with its immediates set to zero. -/
def Plain.kind : Plain → Plain
  | .localGet _ => .localGet 0
  | .localSet _ => .localSet 0
  | .localTee _ => .localTee 0
  | .globalGet _ => .globalGet 0
  | .globalSet _ => .globalSet 0
  | .load op _ => .load op ⟨0, 0⟩
  | .store op _ => .store op ⟨0, 0⟩
  | .const v => .const (.zero v.type)
  | op => op

/-- The instruction with its immediates set to zero and its bodies emptied. -/
def Instruction.kind : Instruction → Instruction
  | .block _ _ => .block .empty []
  | .loop _ _ => .loop .empty []
  | .ifElse _ _ _ => .ifElse .empty [] []
  | .br _ => .br 0
  | .brIf _ => .brIf 0
  | .brTable _ _ => .brTable [] 0
  | .call _ => .call 0
  | .callIndirect _ => .callIndirect 0
  | .plain op => .plain op.kind
  | i => i

/-- The kinds of plain instructions. -/
def Plain.kinds : List Plain :=
  [.drop, .select, .localGet 0, .localSet 0, .localTee 0, .globalGet 0, .globalSet 0, .memorySize,
      .memoryGrow] ++
    LoadOp.all.map (Plain.load · ⟨0, 0⟩) ++ StoreOp.all.map (Plain.store · ⟨0, 0⟩) ++
    ValueType.all.map (fun t => Plain.const (.zero t)) ++ Numeric.all.map Plain.numeric

/-- The 170 kinds of instructions. -/
def Instruction.kinds : List Instruction :=
  [.unreachable, .nop, .block .empty [], .loop .empty [], .ifElse .empty [] [], .br 0, .brIf 0,
    .brTable [] 0, .ret, .call 0, .callIndirect 0] ++ Plain.kinds.map Instruction.plain

theorem LoadOp.mem_all (op : LoadOp) : op ∈ LoadOp.all := by
  rcases op with t | ⟨t, s⟩ | ⟨t, s⟩ | s
  · cases t <;> simp [all, ValueType.all]
  · cases t <;> cases s <;> simp [all]
  · cases t <;> cases s <;> simp [all]
  · cases s <;> simp [all]

theorem StoreOp.mem_all (op : StoreOp) : op ∈ StoreOp.all := by
  rcases op with t | t | t | _
  · cases t <;> simp [all, ValueType.all]
  · cases t <;> simp [all]
  · cases t <;> simp [all]
  · simp [all]

theorem Conversion.mem_all (op : Conversion) : op ∈ Conversion.all := by
  rcases op with _ | s | ⟨target, source, s⟩ | ⟨target, source, s⟩ | _ | _ | source | source
  · simp [all]
  · cases s <;> simp [all]
  · cases target <;> cases source <;> cases s <;> simp [all]
  · cases target <;> cases source <;> cases s <;> simp [all]
  · simp [all]
  · simp [all]
  · cases source <;> simp [all]
  · cases source <;> simp [all]

/-- The table of numeric instructions is complete. -/
theorem Numeric.mem_all (op : Numeric) : op ∈ Numeric.all := by
  cases op with
  | eqz t => cases t <;> simp [all]
  | intCompare t op =>
    have hop : op ∈ IntCompare.all := by
      rcases op with _ | _ | s | s | s | s <;> try cases s
      all_goals simp [IntCompare.all]
    cases t <;> simp [all, hop]
  | floatCompare t op =>
    have hop : op ∈ FloatCompare.all := by cases op <;> simp [FloatCompare.all]
    cases t <;> simp [all, hop]
  | intUnary t op =>
    have hop : op ∈ IntUnary.all := by cases op <;> simp [IntUnary.all]
    cases t <;> simp [all, hop]
  | intBinary t op =>
    have hop : op ∈ IntBinary.all := by
      rcases op with _ | _ | _ | s | s | _ | _ | _ | _ | s | _ | _ <;> try cases s
      all_goals simp [IntBinary.all]
    cases t <;> simp [all, hop]
  | floatUnary t op =>
    have hop : op ∈ FloatUnary.all := by cases op <;> simp [FloatUnary.all]
    cases t <;> simp [all, hop]
  | floatBinary t op =>
    have hop : op ∈ FloatBinary.all := by cases op <;> simp [FloatBinary.all]
    cases t <;> simp [all, hop]
  | conversion op => simp [all, Conversion.mem_all]

theorem Plain.kind_mem_kinds (op : Plain) : op.kind ∈ Plain.kinds := by
  cases op with
  | load op => simp [kind, kinds, LoadOp.mem_all]
  | store op => simp [kind, kinds, StoreOp.mem_all]
  | const v => cases v <;> simp [kind, kinds, ValueType.all, Value.type]
  | numeric op => simp [kind, kinds, Numeric.mem_all]
  | _ => simp [kind, kinds]

theorem Instruction.kind_mem_kinds (i : Instruction) : i.kind ∈ Instruction.kinds := by
  cases i with
  | plain op => simp [kind, kinds, Plain.kind_mem_kinds]
  | _ => simp [kind, kinds]

/-- The mnemonic of an instruction does not depend on its immediates. -/
theorem Instruction.mnemonic_kind (i : Instruction) : i.kind.mnemonic = i.mnemonic := by
  cases i with
  | plain op =>
    cases op with
    | const v => cases v <;> rfl
    | _ => rfl
  | _ => rfl

/-- The bytes of a text as the digits of one number, by which many texts are quickly compared. -/
def textCode (s : String) : Nat :=
  s.toByteArray.data.toList.foldl (fun code b => 256 * code + b.toNat) 0

/-- The mnemonics are distinct, and none of them is empty or closes a body. -/
theorem Instruction.nodup_mnemonics :
    ("" :: "end" :: "else" :: kinds.map mnemonic).Nodup :=
  List.Nodup.of_map textCode (by decide +kernel)

/-- A mnemonic belongs to one kind of instruction. -/
theorem Instruction.kind_of_mnemonic {i j : Instruction} (h : i.mnemonic = j.mnemonic) :
    i.kind = j.kind := by
  have hnodup : (kinds.map mnemonic).Nodup := by
    have := nodup_mnemonics
    simp only [List.nodup_cons] at this
    exact this.2.2.2
  refine List.inj_on_of_nodup_map hnodup i.kind_mem_kinds j.kind_mem_kinds ?_
  rw [mnemonic_kind, mnemonic_kind, h]

/-- No instruction is written like the end of a construct. -/
theorem Instruction.mnemonic_ne (i : Instruction) :
    i.mnemonic ≠ "" ∧ i.mnemonic ≠ "end" ∧ i.mnemonic ≠ "else" := by
  have hmem : i.mnemonic ∈ kinds.map mnemonic :=
    List.mem_map.mpr ⟨i.kind, i.kind_mem_kinds, i.mnemonic_kind⟩
  have hnodup := nodup_mnemonics
  simp only [List.nodup_cons, List.mem_cons, not_or] at hnodup
  refine ⟨?_, ?_, ?_⟩ <;> intro h <;> rw [h] at hmem
  · exact hnodup.1.2.2 hmem
  · exact hnodup.2.1.2 hmem
  · exact hnodup.2.2.1 hmem

/-! ## Words of a line

A line is a mnemonic and immediates, each of them a word behind a blank.
-/

/-- Words, each after a blank. -/
def Text.spaced (words : List String) : String :=
  String.join (words.map (" " ++ ·))

theorem Text.toList_spaced_cons (w : String) (ws : List String) :
    (spaced (w :: ws)).toList = ' ' :: (w.toList ++ (spaced ws).toList) := by
  simp [spaced]

/-- Between words there is a space. -/
theorem Text.head_spaced (ws : List String) : ∀ c ∈ (spaced ws).toList.head?, c = ' ' := by
  cases ws with
  | nil => simp [spaced]
  | cons w ws => simp [toList_spaced_cons]

/-- Words without spaces can be told apart again. -/
theorem Text.spaced_inj {ws ws' : List String} (hws : ∀ w ∈ ws, IsWord w)
    (hws' : ∀ w ∈ ws', IsWord w) (h : spaced ws = spaced ws') : ws = ws' := by
  induction ws generalizing ws' with
  | nil =>
    cases ws' with
    | nil => rfl
    | cons w' ws' => simp [spaced] at h
  | cons w ws ih =>
    cases ws' with
    | nil => simp [spaced] at h
    | cons w' ws' =>
      have h := congrArg String.toList h
      rw [toList_spaced_cons, toList_spaced_cons] at h
      -- the first space behind a word ends it in both texts
      obtain ⟨hw, hrest⟩ := append_inj_of_stop (· = ' ')
        (fun c hc => (isWord_iff.mp (hws w (by simp)) c hc).1)
        (fun c hc => (isWord_iff.mp (hws' w' (by simp)) c hc).1)
        (head_spaced ws) (head_spaced ws') (List.cons.inj h).2
      rw [String.toList_inj.mp hw, ih (fun w hw => hws w (by simp [hw]))
        (fun w hw => hws' w (by simp [hw])) (String.toList_inj.mp hrest)]

/-- Words stay on one line. -/
theorem Text.newline_notMem_spaced {ws : List String} (hws : ∀ w ∈ ws, IsWord w) :
    '\n' ∉ (spaced ws).toList := by
  simp only [spaced, String.toList_join, List.mem_flatMap, List.mem_map]
  rintro ⟨_, ⟨w, hw, rfl⟩, hc⟩
  rw [String.toList_append, List.mem_append] at hc
  rcases hc with hc | hc
  · simp at hc
  · exact (isWord_iff.mp (hws w hw) _ hc).2 rfl

/-- An index as a word. -/
def indexWord (i : UInt32) : String :=
  toString i.toNat

theorem indexText_eq : indexText = fun i => " " ++ indexWord i :=
  rfl

theorem indexWord_inj {i j : UInt32} (h : indexWord i = indexWord j) : i = j :=
  UInt32.toNat_inj.mp (decimal_inj.mp h)

/-- The value type of a construct, if it has one. -/
def BlockType.words : BlockType → List String
  | .empty => []
  | .value t => [t.text]

theorem BlockType.text_eq_spaced (t : BlockType) : t.text = spaced t.words := by
  cases t <;> simp [text, words, spaced]

section Printer

variable [FloatPrinter]

/-- The immediates as words. -/
def Plain.words : Plain → List String
  | .localGet i => [indexWord i]
  | .localSet i => [indexWord i]
  | .localTee i => [indexWord i]
  | .globalGet i => [indexWord i]
  | .globalSet i => [indexWord i]
  | .load _ arg => [indexWord arg.align, indexWord arg.offset]
  | .store _ arg => [indexWord arg.align, indexWord arg.offset]
  | .const v => [v.numberText]
  | _ => []

/-- The immediates as words; a list of labels has as many words as labels. -/
def Instruction.words : Instruction → List String
  | .block t _ => t.words
  | .loop t _ => t.words
  | .ifElse t _ _ => t.words
  | .br l => [indexWord l]
  | .brIf l => [indexWord l]
  | .brTable ls d => ls.map indexWord ++ [indexWord d]
  | .call f => [indexWord f]
  | .callIndirect t => ["(type", indexWord t ++ ")"]
  | .plain op => op.words
  | _ => []

theorem Plain.immediates_eq (op : Plain) : op.immediates = spaced op.words := by
  cases op <;> simp [immediates, words, spaced, indexText_eq, String.append_assoc]

/-- The immediates of an instruction are words. -/
theorem Instruction.immediates_eq (i : Instruction) : i.immediates = spaced i.words := by
  cases i with
  | brTable ls d => simp [immediates, words, spaced, indexText_eq, Function.comp_def]
  | callIndirect t =>
    apply String.toList_inj.mp
    simp [immediates, words, spaced, indexText_eq]
  | plain op => exact op.immediates_eq
  | _ => simp [immediates, words, BlockType.text_eq_spaced, spaced, indexText_eq]

/-- A line without its indentation, after a blank, is its words. -/
theorem Instruction.text_eq (i : Instruction) : " " ++ i.text = spaced (i.mnemonic :: i.words) := by
  rw [text, immediates_eq]
  simp [spaced, String.append_assoc]

end Printer

theorem ValueType.isWord_text (t : ValueType) : IsWord t.text := by
  cases t <;> decide

theorem Sign.isWord_suffix (s : Sign) : IsWord s.suffix := by
  cases s <;> decide

theorem Conversion.isWord_text (c : Conversion) : IsWord c.text := by
  have hverb : IsWord c.verb := by cases c <;> simp +decide [verb]
  have hsuffix : IsWord c.suffix := by cases c <;> simp +decide [suffix, Sign.isWord_suffix]
  simp +decide [text, ValueType.isWord_text, hverb, hsuffix]

theorem Numeric.isWord_text (op : Numeric) : IsWord op.text := by
  -- a type, a point and the name of the operator
  have htyped {t : ValueType} {name : String} (hname : IsWord name) :
      IsWord (t.text ++ "." ++ name) := by
    simp +decide [ValueType.isWord_text, hname]
  cases op with
  | eqz t => exact isWord_append.mpr ⟨ValueType.isWord_text _, by decide⟩
  | intCompare t op =>
    exact htyped (by cases op <;> simp +decide [IntCompare.text, Sign.isWord_suffix])
  | floatCompare t op => exact htyped (by cases op <;> decide)
  | intUnary t op => exact htyped (by cases op <;> decide)
  | intBinary t op =>
    exact htyped (by cases op <;> simp +decide [IntBinary.text, Sign.isWord_suffix])
  | floatUnary t op => exact htyped (by cases op <;> decide)
  | floatBinary t op => exact htyped (by cases op <;> decide)
  | conversion c => exact c.isWord_text

theorem Plain.isWord_mnemonic (op : Plain) : IsWord op.mnemonic := by
  cases op with
  | load op arg =>
    cases op <;>
      simp +decide [mnemonic, LoadOp.text, IntType.text, ValueType.isWord_text, Sign.isWord_suffix]
  | store op arg =>
    cases op <;> simp +decide [mnemonic, StoreOp.text, IntType.text, ValueType.isWord_text]
  | const v => simp +decide [mnemonic, ValueType.isWord_text]
  | numeric op => exact op.isWord_text
  | _ => simp +decide [mnemonic]

theorem Instruction.isWord_mnemonic (i : Instruction) : IsWord i.mnemonic := by
  cases i with
  | plain op => exact op.isWord_mnemonic
  | _ => simp +decide [mnemonic]

theorem isWord_indexWord (i : UInt32) : IsWord (indexWord i) :=
  isWord_decimal _

theorem BlockType.isWord_words (t : BlockType) : ∀ w ∈ t.words, IsWord w := by
  cases t <;> simp [words, ValueType.isWord_text]

section Printer

variable [FloatPrinter] (hp : FloatPrinter.Lawful)
include hp

theorem Plain.isWord_words (op : Plain) : ∀ w ∈ op.words, IsWord w := by
  cases op <;> simp [words, isWord_indexWord, Value.isWord_numberText hp]

/-- Everything on the line of an instruction is words, the numbers by the law of the printer. -/
theorem Instruction.isWord_words (i : Instruction) : ∀ w ∈ i.mnemonic :: i.words, IsWord w := by
  refine List.forall_mem_cons.mpr ⟨i.isWord_mnemonic, ?_⟩
  cases i with
  | brTable ls d =>
    simp only [words, List.mem_append, List.mem_map, List.mem_singleton]
    rintro _ (⟨l, -, rfl⟩ | rfl) <;> exact isWord_indexWord _
  | plain op => exact op.isWord_words hp
  | block t body => exact t.isWord_words
  | loop t body => exact t.isWord_words
  | ifElse t thenBody elseBody => exact t.isWord_words
  | _ => simp +decide [words, isWord_indexWord]

/-- A line without its indentation tells its words. -/
theorem Instruction.words_of_text {i j : Instruction} (h : i.text = j.text) :
    i.mnemonic = j.mnemonic ∧ i.words = j.words := by
  have hspaced : spaced (i.mnemonic :: i.words) = spaced (j.mnemonic :: j.words) := by
    rw [← text_eq, ← text_eq, h]
  exact List.cons.inj (spaced_inj (i.isWord_words hp) (j.isWord_words hp) hspaced)

end Printer

/-! ## Instructions but for their bodies

Kind by kind, the words give the immediates back.
-/

/-- The instruction with its bodies emptied. -/
def Instruction.outline : Instruction → Instruction
  | .block t _ => .block t []
  | .loop t _ => .loop t []
  | .ifElse t _ _ => .ifElse t [] []
  | i => i

/-- A block type is written as its result, or not at all. -/
theorem BlockType.words_inj {t u : BlockType} (h : t.words = u.words) : t = u := by
  have htext {a b : ValueType} (hab : a.text = b.text) : a = b := by
    cases a <;> cases b <;> first | rfl | exact absurd hab (by decide)
  cases t <;> cases u <;> simp only [words, List.cons.injEq, reduceCtorEq] at h
  · rfl
  · rw [htext h.1]

theorem indexWords_inj {is js : List UInt32} (h : is.map indexWord = js.map indexWord) : is = js :=
  (List.map_inj_right fun _ _ => indexWord_inj).mp h

theorem index_of_words {i j : UInt32} (h : [indexWord i] = [indexWord j]) : i = j :=
  indexWord_inj (List.singleton_inj.mp h)

/-- Alignment and offset are written in a fixed order. -/
theorem MemArg.eq_of_words {a b : MemArg}
    (h : [indexWord a.align, indexWord a.offset] = [indexWord b.align, indexWord b.offset]) :
    a = b := by
  obtain ⟨align, offset⟩ := a
  obtain ⟨align', offset'⟩ := b
  have hfields : [align, offset] = [align', offset'] := indexWords_inj h
  simpa using hfields

section Printer

variable [FloatPrinter] (hp : FloatPrinter.Lawful)
include hp

/-- A plain instruction is told by its kind and the words of its immediates. -/
theorem Plain.eq_of_words {op op' : Plain} (hkind : op.kind = op'.kind)
    (hwords : op.words = op'.words) : op = op' := by
  -- two instructions of different constructors are of different kinds
  cases op <;> cases op' <;>
    simp only [kind, reduceCtorEq, load.injEq, store.injEq, const.injEq, and_true] at hkind
  case localGet i j => rw [index_of_words hwords]
  case localSet i j => rw [index_of_words hwords]
  case localTee i j => rw [index_of_words hwords]
  case globalGet i j => rw [index_of_words hwords]
  case globalSet i j => rw [index_of_words hwords]
  case load op arg op' arg' => rw [hkind, MemArg.eq_of_words hwords]
  case store op arg op' arg' => rw [hkind, MemArg.eq_of_words hwords]
  case const v w =>
    have htype : v.type = w.type := by
      cases v <;> cases w <;> simp only [Value.type, Value.zero, reduceCtorEq] at hkind ⊢
    rw [Value.eq_of_numberText hp htype (List.singleton_inj.mp hwords)]
  case numeric op op' => rw [hkind]
  all_goals rfl

/-- What a line tells: an instruction but for the bodies in it. -/
theorem Instruction.outline_of_text {i j : Instruction} (h : i.text = j.text) :
    i.outline = j.outline := by
  obtain ⟨hmnemonic, hwords⟩ := words_of_text hp h
  have hkind := kind_of_mnemonic hmnemonic
  -- the mnemonic leaves the cases on the diagonal, and the words settle the immediates
  cases i <;> cases j <;> simp only [kind, reduceCtorEq, plain.injEq] at hkind
  case block t _ u _ => rw [outline, outline, BlockType.words_inj hwords]
  case loop t _ u _ => rw [outline, outline, BlockType.words_inj hwords]
  case ifElse t _ _ u _ _ => rw [outline, outline, BlockType.words_inj hwords]
  case br l l' => rw [index_of_words hwords]
  case brIf l l' => rw [index_of_words hwords]
  case brTable ls d ls' d' =>
    obtain ⟨hlabels, hdefault⟩ := List.append_inj' hwords rfl
    rw [indexWords_inj hlabels, index_of_words hdefault]
  case call f f' => rw [index_of_words hwords]
  case callIndirect t t' =>
    have hlast : indexWord t ++ ")" = indexWord t' ++ ")" := by
      simpa only [words, List.cons.injEq, and_true, true_and] using hwords
    rw [indexWord_inj ((String.append_left_inj ")").mp hlast)]
  case plain op op' => rw [Plain.eq_of_words hp hkind hwords]
  all_goals rfl

end Printer

/-! ## Lines

Indentation is blanks in front of a text that does not start with one.
-/

/-- No line feed. -/
def Text.IsLine (s : String) : Prop :=
  '\n' ∉ s.toList

/-- A text tells its lines. -/
theorem unlines_inj {ls ls' : List String} (hls : ∀ l ∈ ls, IsLine l) (hls' : ∀ l ∈ ls', IsLine l)
    (h : unlines ls = unlines ls') : ls = ls' := by
  induction ls generalizing ls' with
  | nil =>
    cases ls' with
    | nil => rfl
    | cons l' ls' => simp [unlines] at h
  | cons l ls ih =>
    cases ls' with
    | nil => simp [unlines] at h
    | cons l' ls' =>
      have h := congrArg String.toList h
      simp only [unlines, List.map_cons, String.join_cons, String.toList_append,
        List.append_assoc] at h
      -- lines end at their first line break, as words do at a space
      obtain ⟨hl, hrest⟩ := append_inj_of_stop (· = '\n')
        (fun c hc heq => hls l (by simp) (heq ▸ hc)) (fun c hc heq => hls' l' (by simp) (heq ▸ hc))
        (by simp) (by simp) h
      have hrest := String.toList_inj.mp (List.append_cancel_left hrest)
      rw [String.toList_inj.mp hl, ih (fun l hl => hls l (by simp [hl]))
        (fun l hl => hls' l (by simp [hl])) hrest]

theorem unlines_append (ls ls' : List String) :
    unlines (ls ++ ls') = unlines ls ++ unlines ls' := by
  simp [unlines]

theorem Text.isLine_end : IsLine "end" := by
  simp [IsLine]

theorem Text.isLine_else : IsLine "else" := by
  simp [IsLine]

/-- Spaces in front do not break a line. -/
theorem Text.isLine_indented {level : Nat} {s : String} (h : IsLine s) :
    IsLine (indented level s) := by
  rw [IsLine, indented, String.toList_append, String.toList_ofList, List.mem_append, not_or]
  exact ⟨fun hmem => absurd (List.eq_of_mem_replicate hmem) (by decide), h⟩

/-- Does not begin with a blank, so that no part of it can be taken for indentation. -/
def Text.Flush (s : String) : Prop :=
  ∀ c ∈ s.toList.head?, c ≠ ' '

/-- A line that is not empty tells its level and what stands behind the indentation. -/
theorem Text.indented_inj {level level' : Nat} {s s' : String} (hs : Flush s) (hs' : Flush s')
    (h : indented level s = indented level' s') : level = level' ∧ s = s' := by
  have h := congrArg String.toList h
  simp only [indented, String.toList_append, String.toList_ofList] at h
  have hblanks {n : Nat} : ∀ c ∈ List.replicate n ' ', ¬ c ≠ ' ' :=
    fun c hc => not_not.mpr (List.eq_of_mem_replicate hc)
  obtain ⟨hlevel, hrest⟩ := append_inj_of_stop (· ≠ ' ') hblanks hblanks hs hs' h
  have hlength := congrArg List.length hlevel
  simp only [List.length_replicate] at hlength
  exact ⟨by omega, String.toList_inj.mp hrest⟩

theorem Instruction.flush_text [FloatPrinter] (i : Instruction) : Flush i.text := by
  -- the first character is that of the mnemonic, which is a word and not empty
  have hne : i.mnemonic.toList ≠ [] := fun h => i.mnemonic_ne.1 (String.toList_inj.mp h)
  have hhead : i.text.toList.head? = i.mnemonic.toList.head? := by
    rw [text, String.toList_append, List.head?_append_of_ne_nil _ hne]
  intro c hc
  rw [hhead] at hc
  exact (isWord_iff.mp i.isWord_mnemonic c (List.mem_of_mem_head? hc)).1

section Printer

variable [FloatPrinter] (hp : FloatPrinter.Lawful)
include hp

theorem Instruction.isLine_text (i : Instruction) : IsLine i.text := by
  have hline := newline_notMem_spaced (i.isWord_words hp)
  rw [← text_eq, String.toList_append, List.mem_append, not_or] at hline
  exact hline.2

/-- The line of an instruction is never taken for that of an `end` or an `else`. -/
theorem Instruction.text_ne (i : Instruction) : i.text ≠ "end" ∧ i.text ≠ "else" := by
  have htext {w : String} (hw : IsWord w) (hne : i.mnemonic ≠ w) : i.text ≠ w := by
    intro h
    have hspaced : spaced (i.mnemonic :: i.words) = spaced [w] := by
      rw [← text_eq, h]
      simp [spaced]
    exact hne (List.cons.inj (spaced_inj (i.isWord_words hp) (by simpa using hw) hspaced)).1
  exact ⟨htext (by decide) i.mnemonic_ne.2.1, htext (by decide) i.mnemonic_ne.2.2⟩

end Printer

/-- A line that ends a body. -/
def Text.Closes (l : String) : Prop :=
  ∃ level, l = indented level "end" ∨ l = indented level "else"

theorem Text.closes_end {level : Nat} {rest : List String} :
    ∀ l ∈ (indented level "end" :: rest).head?, Closes l := by
  simpa using ⟨level, .inl rfl⟩

/-- The line of an instruction does not close a construct, however far it is indented. -/
theorem Instruction.not_closes_text [FloatPrinter] (hp : FloatPrinter.Lawful) (i : Instruction)
    (level : Nat) : ¬ Closes (indented level i.text) := by
  rintro ⟨level', h | h⟩
  · exact (i.text_ne hp).1 (indented_inj i.flush_text (by simp [Flush]) h).2
  · exact (i.text_ne hp).2 (indented_inj i.flush_text (by simp [Flush]) h).2

theorem Text.end_ne_else (level level' : Nat) : indented level "end" ≠ indented level' "else" :=
  fun h => absurd (indented_inj (by simp [Flush]) (by simp [Flush]) h).2 (by decide)

/-! ## Trees

By recursion on the first tree. The rest behind a body is carried along, since where the body ends
is part of what has to be shown.
-/

section Printer

variable [FloatPrinter]

/-- The lines below the one of the instruction itself. -/
def Instruction.inner (level : Nat) : Instruction → List String
  | .block _ body => Expr.lines (level + 1) body ++ [indented level "end"]
  | .loop _ body => Expr.lines (level + 1) body ++ [indented level "end"]
  | .ifElse _ thenBody elseBody =>
    Expr.lines (level + 1) thenBody ++
      ((if elseBody.isEmpty then [] else [indented level "else"]) ++
        (Expr.lines (level + 1) elseBody ++ [indented level "end"]))
  | _ => []

theorem Instruction.lines_eq (level : Nat) (i : Instruction) :
    i.lines level = indented level i.text :: i.inner level := by
  cases i <;> simp [lines, inner]

/-- The else part of an `if` and what follows it begin with a line that closes the then part. -/
theorem Text.closes_elseLines {level : Nat} {body : Expr} {rest : List String} :
    ∀ l ∈ ((if body.isEmpty then [] else [indented level "else"]) ++
      (Expr.lines (level + 1) body ++ indented level "end" :: rest)).head?, Closes l := by
  cases body with
  | nil => exact closes_end
  | cons i is => simpa using ⟨level, .inr rfl⟩

/-- Instructions with one outline are constructs of one kind and type, or the same. -/
theorem Instruction.outline_cases {i j : Instruction} (h : i.outline = j.outline) :
    (∃ t body body', i = .block t body ∧ j = .block t body') ∨
      (∃ t body body', i = .loop t body ∧ j = .loop t body') ∨
      (∃ t thenBody thenBody' elseBody elseBody',
        i = .ifElse t thenBody elseBody ∧ j = .ifElse t thenBody' elseBody') ∨
      i = j ∧ ∀ level, i.inner level = [] := by
  cases i <;> cases j <;>
    simp only [outline, reduceCtorEq, block.injEq, loop.injEq, ifElse.injEq, and_true] at h <;>
    simp_all [inner]

mutual

/-- The lines below an instruction tell the bodies in it, whatever lines follow. -/
theorem Instruction.inner_inj (hp : FloatPrinter.Lawful) (i : Instruction) {j : Instruction}
    {level : Nat} {rest rest' : List String} (houtline : i.outline = j.outline)
    (h : i.inner level ++ rest = j.inner level ++ rest') : i = j ∧ rest = rest' := by
  rcases Instruction.outline_cases houtline with ⟨t, body, body', rfl, rfl⟩ |
    ⟨t, body, body', rfl, rfl⟩ | ⟨t, thenBody, thenBody', elseBody, elseBody', rfl, rfl⟩ |
    ⟨rfl, hinner⟩
  · simp only [Instruction.inner, List.append_assoc, List.singleton_append] at h
    obtain ⟨rfl, hrest⟩ := Expr.lines_inj hp body closes_end closes_end h
    exact ⟨rfl, (List.cons.inj hrest).2⟩
  · simp only [Instruction.inner, List.append_assoc, List.singleton_append] at h
    obtain ⟨rfl, hrest⟩ := Expr.lines_inj hp body closes_end closes_end h
    exact ⟨rfl, (List.cons.inj hrest).2⟩
  · simp only [Instruction.inner, List.append_assoc, List.singleton_append] at h
    obtain ⟨rfl, helse⟩ := Expr.lines_inj hp thenBody closes_elseLines closes_elseLines h
    -- an `else` line stands there for one of two else parts only if for both
    cases elseBody with
    | nil =>
      cases elseBody' with
      | nil => exact ⟨rfl, (List.cons.inj helse).2⟩
      | cons j js => exact absurd (List.cons.inj helse).1 (end_ne_else _ _)
    | cons i is =>
      cases elseBody' with
      | nil => exact absurd (List.cons.inj helse).1.symm (end_ne_else _ _)
      | cons j js =>
        obtain ⟨hbody, hrest⟩ :=
          Expr.lines_inj hp (i :: is) closes_end closes_end (List.cons.inj helse).2
        exact ⟨by rw [hbody], (List.cons.inj hrest).2⟩
  · rw [hinner] at h
    exact ⟨rfl, h⟩

/-- The lines of a body tell it, if what follows begins with a line that closes it. -/
theorem Expr.lines_inj (hp : FloatPrinter.Lawful) (a : List Instruction) {b : List Instruction}
    {level : Nat} {rest rest' : List String} (hrest : ∀ l ∈ rest.head?, Closes l)
    (hrest' : ∀ l ∈ rest'.head?, Closes l)
    (h : Expr.lines level a ++ rest = Expr.lines level b ++ rest') : a = b ∧ rest = rest' := by
  -- a line that closes a construct ends a body; every other line starts an instruction
  match a, b with
  | [], [] => exact ⟨rfl, h⟩
  | [], j :: js =>
    simp only [Expr.lines, Instruction.lines_eq, List.nil_append, List.cons_append] at h
    exact absurd (hrest _ (by simp [h])) (j.not_closes_text hp level)
  | i :: is, [] =>
    simp only [Expr.lines, Instruction.lines_eq, List.nil_append, List.cons_append] at h
    exact absurd (hrest' _ (by simp [← h])) (i.not_closes_text hp level)
  | i :: is, j :: js =>
    simp only [Expr.lines, Instruction.lines_eq, List.cons_append, List.append_assoc] at h
    obtain ⟨hline, hinner⟩ := List.cons.inj h
    have htext := (indented_inj i.flush_text j.flush_text hline).2
    obtain ⟨rfl, hlines⟩ := Instruction.inner_inj hp i (Instruction.outline_of_text hp htext) hinner
    obtain ⟨rfl, hrest⟩ := Expr.lines_inj hp is hrest hrest' hlines
    exact ⟨rfl, hrest⟩

end

mutual

/-- An instruction is written in lines, one for each instruction in it and one for each end. -/
theorem Instruction.isLine_lines (hp : FloatPrinter.Lawful) (level : Nat) :
    ∀ (i : Instruction), ∀ l ∈ i.lines level, IsLine l
  | .block t body => by
    simp only [Instruction.lines, List.forall_mem_cons, List.forall_mem_append]
    exact ⟨isLine_indented (Instruction.isLine_text hp _), Expr.isLine_lines hp (level + 1) body,
      isLine_indented isLine_end, by simp⟩
  | .loop t body => by
    simp only [Instruction.lines, List.forall_mem_cons, List.forall_mem_append]
    exact ⟨isLine_indented (Instruction.isLine_text hp _), Expr.isLine_lines hp (level + 1) body,
      isLine_indented isLine_end, by simp⟩
  | .ifElse t thenBody elseBody => by
    simp only [Instruction.lines, List.forall_mem_cons, List.forall_mem_append]
    refine ⟨isLine_indented (Instruction.isLine_text hp _),
      Expr.isLine_lines hp (level + 1) thenBody, ?_, Expr.isLine_lines hp (level + 1) elseBody,
      isLine_indented isLine_end, by simp⟩
    split
    · simp
    · simpa using isLine_indented isLine_else
  | .unreachable | .nop | .br _ | .brIf _ | .brTable _ _ | .ret | .call _ | .callIndirect _
  | .plain _ => by
    simpa only [Instruction.lines, List.forall_mem_singleton] using
      isLine_indented (Instruction.isLine_text hp _)

theorem Expr.isLine_lines (hp : FloatPrinter.Lawful) (level : Nat) :
    ∀ (body : List Instruction), ∀ l ∈ Expr.lines level body, IsLine l
  | [] => by simp [Expr.lines]
  | i :: is => by
    simp only [Expr.lines, List.forall_mem_append]
    exact ⟨Instruction.isLine_lines hp level i, Expr.isLine_lines hp level is⟩

end

/-- The text of a sequence is that of its instructions, one after the other. -/
theorem Expr.join_treeText (body : Expr) :
    String.join (body.map Instruction.treeText) = body.treeText := by
  induction body with
  | nil => rfl
  | cons i is ih =>
    rw [List.map_cons, String.join_cons, ih, Instruction.treeText, Expr.treeText, Expr.treeText,
      Expr.lines, unlines_append]

/-- The text form is faithful. The text of a sequence is that of its instructions, one after the
other, and sequences with equal texts are equal: in all bodies, in all immediates, in floats bit by
bit. -/
theorem tree_text_faithful (hp : FloatPrinter.Lawful) (a b : Expr) :
    a.treeText = String.join (a.map Instruction.treeText) ∧
      (String.join (a.map Instruction.treeText) = String.join (b.map Instruction.treeText) ↔
        a = b) := by
  refine ⟨a.join_treeText.symm, fun h => ?_, fun h => by rw [h]⟩
  rw [Expr.join_treeText, Expr.join_treeText] at h
  have hlines : Expr.lines 0 a = Expr.lines 0 b :=
    unlines_inj (Expr.isLine_lines hp 0 a) (Expr.isLine_lines hp 0 b) h
  have hclosed : ∀ l ∈ ([] : List String).head?, Closes l := by simp
  exact (Expr.lines_inj hp a hclosed hclosed (congrArg (· ++ []) hlines)).1

end Printer

/-- A body that gives the quiet NaN with the given payload. -/
def nanBody (payload : BitVec 22) : Expr :=
  [.block (.value .f32) [.plain (.const (.f32 (0x1ff#10 ++ payload)))]]

/-- In hexadecimal even NaNs are told apart. -/
theorem nanBody_text_faithful :
    @FloatPrinter.Lawful FloatPrinter.hexadecimal ∧
      (nanBody 0).treeText = String.join ((nanBody 0).map Instruction.treeText) ∧
      String.join ((nanBody 0).map Instruction.treeText) ≠
        String.join ((nanBody 1).map Instruction.treeText) := by
  have hp := FloatPrinter.lawful_hexadecimal
  obtain ⟨htext, hiff⟩ := tree_text_faithful hp (nanBody 0) (nanBody 1)
  refine ⟨hp, htext, mt hiff.mp fun heq => ?_⟩
  simp [nanBody] at heq

example :
    Expr.treeText [.ifElse .empty [.nop] [], .block (.value .i32) [.plain (.const (.i32 7))]] =
      "if\n  nop\nend\nblock i32\n  i32.const 7\nend\n" := by
  decide

end WebAssembly
