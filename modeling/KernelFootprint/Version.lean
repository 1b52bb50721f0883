/-!
# Versions

The version of the analysis, and the version of the vocabulary and of the table
layout that a catalogue is read with.
-/

namespace KernelFootprint

def version : List Nat := [2024, 1]

def versionText : String := ".".intercalate (version.map toString)

def catalogueFormat : List Nat := [2024, 1]

end KernelFootprint
