import TensorTemplate.Index
import TensorTemplate.NameGen
import TensorTemplate.Printer

/-!
Function values that stand for whole tensors. A function value is known by the
kind of thing it computes and by its index tags; the first one of its kind and
tags is declared, and later ones are calls of it. What it computes is not looked
at before it is declared, so a tensor of any size can be called.
-/

namespace TensorTemplate

/-- A parameter of a function value: a label and the class of index that it stands for. -/
structure IndexTag where
  label : Char
  cls : IndexClass
deriving DecidableEq, Repr

def Index.tag (i : Index) : IndexTag := ⟨i.label, i.cls⟩

/-- What a function value computes. -/
inductive LambdaBody where
  /-- One expression. -/
  | value (e : Expr)
  /-- An expression for each listed choice of index values. The list is made when it is asked for. -/
  | cases (cs : Thunk (List (List Nat × Expr)))

/-- A function value. -/
structure Lambda where
  kind : String
  tags : List IndexTag
  body : LambdaBody

namespace Lambda

/-- The same kind and the same tags; what is computed does not count. -/
def sameIdentity (l k : Lambda) : Bool := l.kind = k.kind && l.tags = k.tags

def isAtomic (l : Lambda) : Bool :=
  match l.body with
  | .value _ => true
  | .cases _ => false

/-- The names of the parameters. -/
def params (l : Lambda) : List String := l.tags.map fun t => String.singleton t.label

/-- The function value in the target language. -/
def render (b : Backend) (l : Lambda) : String :=
  match l.body with
  | .value e => b.atomicLambda l.params (b.print e)
  | .cases cs => b.mapLambda l.params (cs.get.map fun c => ⟨c.1, b.print c.2⟩)

end Lambda

/-- A function value under its name. -/
structure LambdaRecord where
  name : String
  lambda : Lambda

/-- The declaration of a function value, inside three fragments of text. -/
def LambdaRecord.declaration (b : Backend) (left mid right : String) (r : LambdaRecord) : String :=
  left ++ r.name ++ mid ++ r.lambda.render b ++ right

/-- The declaration of a function value as the backend writes it. -/
def LambdaRecord.declare (b : Backend) (r : LambdaRecord) : String :=
  let (left, mid, right) := b.lambdaFragments
  r.declaration b left mid right

structure LambdaCache where
  backend : Backend
  names : NameGen
  /-- The records of single values, in order of entry. -/
  atomic : List LambdaRecord := []
  /-- The records by cases, in order of entry. -/
  mapped : List LambdaRecord := []
  hits : Nat := 0
  misses : Nat := 0

namespace LambdaCache

def new (backend : Backend) (kernel : String) : LambdaCache := { backend, names := { kernel } }

/-- All records, single values first. -/
def records (c : LambdaCache) : List LambdaRecord := c.atomic ++ c.mapped

def isEmpty (c : LambdaCache) : Bool := c.records.isEmpty

/-- The record of the same shape and identity. -/
def find? (c : LambdaCache) (l : Lambda) : Option LambdaRecord :=
  (if l.isAtomic then c.atomic else c.mapped).find? fun r => r.lambda.sameIdentity l

/-- One more record, among those of its shape. -/
def push (c : LambdaCache) (r : LambdaRecord) : LambdaCache :=
  if r.lambda.isAtomic then { c with atomic := c.atomic ++ [r] }
  else { c with mapped := c.mapped ++ [r] }

/-- The record of the same identity, which is entered first if there is none. -/
def enter (c : LambdaCache) (generation : Nat) (l : Lambda) : LambdaRecord × LambdaCache :=
  match c.find? l with
  | some r => (r, { c with hits := c.hits + 1 })
  | none =>
    let (name, names) := c.names.fresh generation
    (⟨name, l⟩, { c with names, misses := c.misses + 1 }.push ⟨name, l⟩)

/-- A call of the record of the same identity. -/
def cache (c : LambdaCache) (generation : Nat) (l : Lambda) : String × LambdaCache :=
  let (r, cache) := c.enter generation l
  (c.backend.invocation r.name l.params, cache)

/-- One declaration for each record. -/
def temporaries (c : LambdaCache) (left mid right : String) : List String :=
  c.records.map (·.declaration c.backend left mid right)

/-- Forgets all records and counts names from zero; the generation has to move on with it. -/
def clear (c : LambdaCache) : LambdaCache :=
  { c with atomic := [], mapped := [], names := c.names.reset }

end LambdaCache

end TensorTemplate
