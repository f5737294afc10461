import MiniC.Evaluate
import MiniC.Machine
import MiniC.Parse

/-! From text to result: a program is executed, a bare expression is evaluated. -/

namespace MiniC

abbrev Environment := String → Option String

namespace Run

def withSettings (cfg : Settings) (t : Tree) : Machine.Result × List Record :=
  let o := Machine.execute { toSettings := cfg } t
  (o.result, o.state.journal.toList)

def inEnvironment (env : Environment) (t : Tree) : Machine.Result × List Record :=
  match Settings.ofEnvironment env with
  | .error f => (.failed ("Invalid interpreter settings: " ++ f.message), [])
  | .ok cfg => withSettings cfg t

def tree (cfg : Option Settings) (env : Environment) (t : Tree) : Machine.Result × List Record :=
  match cfg with
  | some cfg => withSettings cfg t
  | none => inEnvironment env t

def expression (t : Tree) : Machine.Result :=
  match Evaluate.tree t with
  | .ok n => ⟨[], some (.number n), [], none⟩
  | .error f => .failed f.message

def stopMessage (source : String) : Parse.Stop → String
  | .diagnostic d => d.display source
  | .noOperator _ text => text

def text (cfg : Option Settings) (env : Environment) (source : String) :
    Machine.Result × List Record :=
  match Parse.readText source with
  | (.error stop, reading) => (.failed (stopMessage source stop), reading)
  | (.ok (.program body), reading) =>
    let (result, running) := tree cfg env (.program body)
    (result, reading ++ running)
  | (.ok t, reading) => (expression t, reading)

end Run

end MiniC
