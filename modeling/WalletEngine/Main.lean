import WalletEngine.Shell.Process

/-! # The program -/

/-- Runs the program with its arguments. -/
def main (args : List String) : IO UInt32 := do
  let ending ← (WalletEngine.Shell.run args).block
  IO.print ending.stdout
  IO.eprint ending.stderr
  return ending.code
