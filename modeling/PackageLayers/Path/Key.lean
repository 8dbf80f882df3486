/-
Purpose: Short names for paths.
Main exports: Path.key
-/
import PackageLayers.Digest.Sha256
import PackageLayers.Path.Basic
import PackageLayers.Text.Hex

namespace PackageLayers.Path

/-- A name for a path that can be used as a file name: the first sixteen bytes of
the digest of its stored spelling, in hexadecimal. -/
def key (path : Path) : String :=
  let bytes := path.storedText.toList.flatMap String.utf8EncodeChar
  Text.hexOf ((Sha256.digest bytes).take 16)

end PackageLayers.Path
