import EinkNode.Lib.Disk
/-!
# The build

The Kconfig options (without `CONFIG_APP_EINK_`) that the modelled code looks
at, and the root directory of the store.
-/
open NodeLib

namespace EinkNode

abbrev Path := Bytes

/-- A temporary file is never the file that it is for. -/
theorem ne_append_tmp (path : Path) : path ≠ path ++ ascii ".tmp" := by
  intro h
  have := congrArg List.length h
  simp [ascii] at this

/-- A program over the file system. -/
abbrev FS := StateM (Disk Path)

structure Build where
  root : CStr 256
  LZ4 : Bool
  LZ4_EXPAND_ON_DISPLAY : Bool
  STORE_QUICK_CACHE_CHECK : Bool
deriving DecidableEq

/-- A build that keeps images compressed until they are displayed. -/
def lz4Build : Build :=
  { root := .copy _ (ascii "/lfs1"), LZ4 := true, LZ4_EXPAND_ON_DISPLAY := true, STORE_QUICK_CACHE_CHECK := true }

end EinkNode
