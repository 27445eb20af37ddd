import ChunkedTransfer.Text.Ranges

/-!
# Ignorable characters

The code points that have the property Default_Ignorable_Code_Point. Among them are letters: the fillers of Hangul.
-/

namespace ChunkedTransfer.Text

/-- Ranges of the code points that are drawn as nothing where they are not known. -/
def ignorableRanges : List CharRange :=
  [⟨173, 173⟩, ⟨847, 847⟩, ⟨1564, 1564⟩, ⟨4447, 4448⟩, ⟨6068, 6069⟩, ⟨6155, 6159⟩, ⟨8203, 8207⟩,
   ⟨8234, 8238⟩, ⟨8288, 8303⟩, ⟨12644, 12644⟩, ⟨65024, 65039⟩, ⟨65279, 65279⟩, ⟨65440, 65440⟩,
   ⟨65520, 65528⟩, ⟨113824, 113827⟩, ⟨119155, 119162⟩, ⟨917504, 921599⟩]

end ChunkedTransfer.Text
