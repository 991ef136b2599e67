/-!
# Keywords of listings

The words at the start of a line that are no mnemonics, and the word for a missing type. Unlike
mnemonics they are written in one way only.
-/

namespace CleanupFilter.Keyword

/-- Starts a method. -/
def openMethod : List Char := "method".toList

/-- Ends a method. -/
def closeMethod : List Char := "end".toList

/-- Stands for a stack map frame. -/
def frame : List Char := "FRAME".toList

/-- Starts a line marker. -/
def lineMarker : List Char := "LINENUMBER".toList

/-- Starts an exception table entry. -/
def tryCatch : List Char := "TRYCATCHBLOCK".toList

/-- Stands in an exception table entry for the type of a handler that catches everything. -/
def catchAll : List Char := "null".toList

end CleanupFilter.Keyword
