import ShaderBytecode.Program.Encoder

set_option autoImplicit false

/-! # Building programs

A `ProgramBuilder` collects instructions and keeps track of temporary registers, so that the finished
program declares as many as it needs. Two numbers suffice for that: how many registers were reserved,
by asking for one or by declaring a count, and one more than the highest register that an instruction
mentions.

The operands of an instruction are checked one after another, and an operand that passed counts as
mentioned even if a later one is refused. -/

namespace ShaderBytecode

/-- A program under construction. -/
structure ProgramBuilder where
  stage : ShaderStage
  model : ShaderModel
  /-- The instructions recorded so far, without the declaration of temporary registers. -/
  instructions : List Instruction := []
  /-- How many temporary registers were reserved. -/
  reserved : Nat := 0
  /-- A bound above every temporary register that was mentioned. It stands for a word of 32 bits
      with the bit of each such register set: nothing but the place of the highest bit is ever asked
      for, and the bound is one above it, or 0 if there is none. -/
  mentioned : Nat := 0
  deriving DecidableEq, Repr

/-- A step of building. A step that fails keeps what it had changed before. -/
abbrev Building : Type → Type := EStateM EmitError ProgramBuilder

namespace ProgramBuilder

/-- How many temporary registers a program can use. -/
def maxTemps : Nat := 32

/-! ## Temporary registers -/

/-- How many temporary registers the finished program declares. -/
def tempCount (b : ProgramBuilder) : Nat := max b.reserved b.mentioned

/-- Reserve a register and return its number. -/
def allocTemp : Building UInt32 := do
  let index := (← get).reserved
  if index ≥ maxTemps then
    throw (.tempOutOfRange (UInt32.ofNat index))
  modify fun b => { b with reserved := index + 1 }
  return UInt32.ofNat index

/-- Reserve at least `count` registers. -/
def dclTemps (count : UInt32) : Building Unit := do
  if count.toNat > maxTemps then
    throw (.tempOutOfRange (count - 1))
  modify fun b => { b with reserved := max b.reserved count.toNat }

/-- Note that an operand is used; only temporary registers matter. -/
def mention (op : Operand) : Building Unit := do
  if op.kind = .temp then
    match op.registerIndex? with
    | none => throw (.badOperand .tempIndex)
    | some index =>
        if index.toNat ≥ maxTemps then
          throw (.tempOutOfRange index)
        modify fun b => { b with mentioned := max b.mentioned (index.toNat + 1) }

/-- Note that an operand is written to. Only temporary registers and outputs can be. -/
def mentionDestination (op : Operand) : Building Unit :=
  match op.kind with
  | .temp | .output => mention op
  | kind => throw (.badDestination kind)

/-! ## Declarations -/

/-- Append an instruction. -/
def record (inst : Instruction) : Building Unit :=
  modify fun b => { b with instructions := b.instructions ++ [inst] }

def dclGlobalFlags (flags : GlobalFlags) : Building Unit := record (.dclGlobalFlags flags)

def dclInput (index : UInt32) (mask : UInt8) : Building Unit :=
  record (.dclInput (.register .input index (.mask mask)))

def dclOutput (index : UInt32) (mask : UInt8) : Building Unit :=
  record (.dclOutput (.register .output index (.mask mask)))

def dclOutputSiv (index : UInt32) (mask : UInt8) (name : SystemValue) : Building Unit :=
  record (.dclOutputSiv (.register .output index (.mask mask)) name)

def dclConstantBuffer (slot size : UInt32) (access : ConstantAccess) : Building Unit :=
  record (.dclConstantBuffer slot size access)

def dclSampler (slot : UInt32) (mode : SamplerMode) : Building Unit :=
  record (.dclSampler slot mode)

/-- Declare a resource with one sample and the same type in every component. -/
def dclResource (slot : UInt32) (dimension : ResourceDimension) (type : ReturnType) :
    Building Unit :=
  record (.dclResource slot dimension 0 (.all type))

/-! ## Computations -/

def mov (dst src : Operand) : Building Unit := do
  mentionDestination dst
  mention src
  record (.mov dst src)

def add (dst a b : Operand) : Building Unit := do
  mentionDestination dst
  mention a
  mention b
  record (.add dst a b)

def mul (dst a b : Operand) : Building Unit := do
  mentionDestination dst
  mention a
  mention b
  record (.mul dst a b)

def mad (dst a b c : Operand) : Building Unit := do
  mentionDestination dst
  mention a
  mention b
  mention c
  record (.mad dst a b c)

/-- What the first declaration of a resource says about it. -/
def declaredResource? (b : ProgramBuilder) (slot : UInt32) :
    Option (ResourceDimension × Lanes ReturnType) :=
  b.instructions.findSome? fun
    | .dclResource declared dimension _ types =>
        if declared = slot then some (dimension, types) else none
    | _ => none

/-- Sample a resource at an explicit level of detail. The resource must have been declared; the
    instruction takes dimension and types from there. -/
def sampleL (dst coord : Operand) (texture sampler : UInt32) (lod : Operand) : Building Unit := do
  match (← get).declaredResource? texture with
  | none => throw (.undeclaredResource texture)
  | some (dimension, types) =>
      mentionDestination dst
      mention coord
      mention lod
      record (.sampleL dimension types dst coord (.register .resource texture .identity)
        (.sampler sampler) lod)

def ret : Building Unit := record .ret

/-! ## The finished program -/

/-- The instructions with the declaration of temporary registers, if any are used, put before the
    first instruction that is not a declaration. -/
def withTemps (b : ProgramBuilder) : List Instruction :=
  if b.tempCount = 0 then
    b.instructions
  else
    b.instructions.takeWhile (·.isDeclaration)
      ++ .dclTemps (UInt32.ofNat b.tempCount)
      :: b.instructions.dropWhile (·.isDeclaration)

/-- The program built so far. -/
def program (b : ProgramBuilder) : Program := ⟨b.stage, b.model, b.withTemps⟩

/-- The program's tokens, or why it has none. -/
def finish (b : ProgramBuilder) : Except EmitError (List UInt32) := b.program.encode

end ProgramBuilder

end ShaderBytecode
