/-!
# Log records

What a run notes on its way, and results that carry notes of any kind. Such a result is used like a
plain one: `Traced.result` is all that decides how the run goes on.
-/

namespace AssetBake

namespace Log

inductive Level
  | error
  | warn
  | info
  | debug
  | trace
deriving DecidableEq

/-- How much is shown with the level: the higher, the more. -/
def Level.rank : Level → Nat
  | error => 1
  | warn => 2
  | info => 3
  | debug => 4
  | trace => 5

def Level.word : Level → String
  | error => "error"
  | warn => "warn"
  | info => "info"
  | debug => "debug"
  | trace => "trace"

/-- One note, with the part of the program that made it. -/
structure Record where
  level : Level
  target : String
  message : String
deriving DecidableEq

end Log

/-- A result and the notes made on the way to it. -/
structure Traced (ν ε α : Type) where
  notes : List ν
  result : Except ε α

namespace Traced

variable {ν μ ε α β : Type}

instance : Monad (Traced ν ε) where
  pure a := ⟨[], .ok a⟩
  bind x f :=
    match x.result with
    | .error e => ⟨x.notes, .error e⟩
    | .ok a => ⟨x.notes ++ (f a).notes, (f a).result⟩

def note (notes : List ν) : Traced ν ε Unit :=
  ⟨notes, .ok ()⟩

def ofExcept (result : Except ε α) : Traced ν ε α :=
  ⟨[], result⟩

def fail (e : ε) : Traced ν ε α :=
  ⟨[], .error e⟩

/-- The same result with each note changed. -/
def mapNotes (f : ν → μ) (x : Traced ν ε α) : Traced μ ε α :=
  ⟨x.notes.map f, x.result⟩

@[simp] theorem result_pure (a : α) : (pure a : Traced ν ε α).result = .ok a := rfl

@[simp] theorem notes_pure (a : α) : (pure a : Traced ν ε α).notes = [] := rfl

@[simp] theorem result_note (notes : List ν) : (note notes : Traced ν ε Unit).result = .ok () := rfl

@[simp] theorem notes_note (notes : List ν) : (note notes : Traced ν ε Unit).notes = notes := rfl

@[simp] theorem result_ofExcept (result : Except ε α) :
    (ofExcept result : Traced ν ε α).result = result := rfl

@[simp] theorem notes_ofExcept (result : Except ε α) :
    (ofExcept result : Traced ν ε α).notes = [] := rfl

@[simp] theorem result_fail (e : ε) : (fail e : Traced ν ε α).result = .error e := rfl

@[simp] theorem notes_fail (e : ε) : (fail e : Traced ν ε α).notes = [] := rfl

@[simp] theorem result_mapNotes (f : ν → μ) (x : Traced ν ε α) :
    (x.mapNotes f).result = x.result := rfl

@[simp] theorem notes_mapNotes (f : ν → μ) (x : Traced ν ε α) :
    (x.mapNotes f).notes = x.notes.map f := rfl

@[simp] theorem result_bind (x : Traced ν ε α) (f : α → Traced ν ε β) :
    (x >>= f).result = x.result >>= fun a => (f a).result := by
  simp only [bind, Except.bind]
  split <;> simp_all

end Traced

end AssetBake
