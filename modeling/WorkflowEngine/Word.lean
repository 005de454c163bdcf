/-!
# Words

Where the whole numbers that fit in a word of 64 bits end.
-/

namespace WorkflowEngine.Word

/-- The first number past the unsigned words. -/
def unsignedEnd : Nat := 0x10000000000000000

/-- The first number past the signed words. Its negative is the least of them. -/
def signedEnd : Nat := 0x8000000000000000

end WorkflowEngine.Word
