import Transclusion.CommandLine.Word

namespace Transclusion.CommandLine

open Text

-- Why nothing is run.
inductive Exit
  | usage
  | help
  | version
  deriving DecidableEq

-- What an option does to the options read so far.
inductive Effect (σ : Type)
  | flag (f : σ → σ)
  | value (f : Text → σ → Option σ)
  | leave (e : Exit)

structure Reading (σ : Type) where
  options : σ
  spoiled : Bool := false

namespace Effect

variable {σ : Type}

def takesValue : Effect σ → Bool
  | value _ => true
  | _ => false

def run : Effect σ → σ → Except Exit σ
  | flag f, s => .ok (f s)
  | value _, _ => .error .usage
  | leave e, _ => .error e

def runWith (v : Text) : Effect σ → σ → Except Exit σ
  | value f, s => (f v s).elim (.error .usage) .ok
  | _, _ => .error .usage

end Effect

section

variable {σ : Type} (choices : List (Choice (Effect σ)))

-- All that one word does: the value of its option, or a row of flags written as letters. Letters that
-- are no options spoil the reading.
def expand (o : Choice (Effect σ)) (equals : Bool) (s : Text) :
    Except Exit (List (σ → Except Exit σ) × Bool) :=
  if o.effect.takesValue then .ok ([o.effect.runWith s], false)
  else
    match s with
    | [] => .error .usage
    | c :: r =>
      if Word.isLong o.name || equals || c == '-' then .error .usage
      else
        match Word.named? choices ['-', c] with
        | none => .ok ([o.effect.run], true)
        | some p =>
          if r.isEmpty then .ok ([o.effect.run, p.effect.run], false)
          else
            (expand p (r.head? == some '=') (if r.head? = some '=' then r.tail else r)).map
              fun (fs, spoiled) => (o.effect.run :: fs, spoiled)
termination_by s.length
decreasing_by split <;> simp only [List.length_tail, List.length_cons] <;> omega

-- Reads one option, and tells how many of the words after it belong to it.
def readOption (o : Choice (Effect σ)) (attached : Option Attached) (ws : List (Word (Effect σ)))
    (x : Reading σ) : Except Exit (Nat × Reading σ) :=
  match attached with
  | some a => do
    let (fs, spoiled) ← expand choices o a.equals a.text
    let options ← fs.foldlM (fun s f => f s) x.options
    .ok (0, { options, spoiled := x.spoiled || spoiled })
  | none =>
    match o.effect, ws with
    | .value _, ⟨v, .plain⟩ :: _ => (o.effect.runWith v x.options).map fun s => (1, { x with options := s })
    | e, _ => (e.run x.options).map fun s => (0, { x with options := s })

-- Reads up to the first word that is no option.
def readLeading (ws : List (Word (Effect σ))) (x : Reading σ) :
    Except Exit (List (Word (Effect σ)) × Reading σ) :=
  match ws with
  | [] => .ok ([], x)
  | w :: ws =>
    match w.kind with
    | .option o attached =>
      match readOption choices o attached ws x with
      | .error e => .error e
      | .ok (n, x) => readLeading (ws.drop n) x
    | .unknown => readLeading ws { x with spoiled := true }
    | .plain | .separator => .ok (w :: ws, x)
termination_by ws.length
decreasing_by all_goals simp only [List.length_drop, List.length_cons]; omega

-- The separator that may follow an operand.
def dropSeparator : List (Word (Effect σ)) → List (Word (Effect σ))
  | ⟨_, .separator⟩ :: ws => ws
  | ws => ws

theorem dropSeparator_length (ws : List (Word (Effect σ))) : (dropSeparator ws).length ≤ ws.length := by
  unfold dropSeparator
  split <;> simp

-- Reads options and operands, of which there may be as many as `wanted` says.
def readAll (wanted : Nat) (ws : List (Word (Effect σ))) (x : Reading σ) :
    Except Exit (List Text × Reading σ) :=
  match ws with
  | [] => .ok ([], x)
  | w :: ws =>
    have := dropSeparator_length ws
    match w.kind, wanted with
    | .option o attached, _ =>
      match readOption choices o attached ws x with
      | .error e => .error e
      | .ok (n, x) => readAll wanted (ws.drop n) x
    | .plain, n + 1 =>
      (readAll n (dropSeparator ws) x).map fun (operands, x) => (w.text :: operands, x)
    | .separator, _ + 1 => readAll wanted ws x
    | _, _ => readAll wanted ws { x with spoiled := true }
termination_by ws.length
decreasing_by all_goals simp only [List.length_drop, List.length_cons]; omega

end

end Transclusion.CommandLine
