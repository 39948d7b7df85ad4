import SuiteGate.Text.Lines
/-!
# Arguments of Python runs

The arguments of a Python run are meant for the virtual machine or for the launcher
(`splitVmArgs`), and among the latter some only name more distributions for the class path
(`takeDistributions`).
-/

namespace SuiteGate.Python

/-- The mark that ends the arguments of the virtual machine. -/
def separator : String := "--"

/-- The argument of the virtual machine that an argument stands for, if it has one of the
marks of such arguments. -/
def vmArg? (arg : String) : Option String :=
  (Text.afterPrefix? "-J" arg).or (Text.afterPrefix? "@" arg)

/-- The arguments of the virtual machine and those of the launcher.  What stands before the
separator is meant for the virtual machine; without a separator, the marked arguments are. -/
def splitVmArgs (args : List String) : List String × List String :=
  if args.contains separator then
    (args.takeWhile (· ≠ separator), (args.dropWhile (· ≠ separator)).tail)
  else (args.filterMap vmArg?, args.filter fun a => (vmArg? a).isNone)

/-- The distribution that an argument adds to the class path. -/
def distribution? (arg : String) : Option String :=
  Text.afterPrefix? "-add-dist=" arg

/-- The arguments that are not about distributions, and the distributions. -/
def takeDistributions (args : List String) : List String × List String :=
  (args.filter fun a => (distribution? a).isNone, args.filterMap distribution?)

end SuiteGate.Python
