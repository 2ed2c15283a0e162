import System1.FdWrap
import System1.ProcNest
import System1.UsermodeSlots
import System1.SmodRuns
import System1.FloppyCache
import System1.MshRedir
import System1.TtyRefines
import System1.DriverPaths
import System1.Mksmod
import System1.MmSizes
import System1.Fat12Codec
import System1.Fat12Frees
import System1.Fat12Scans
import System1.Fat12Allocs
import System1.VfsAtomic
import System1.Fat12Agree
import System1.RamfsWalk
import System1.FdAtomic
import System1.UsermodeSegments
import System1.Multiboot
import System1.Iso9660
import System1.MshSyntax
import System1.ConfigFiles
import System1.RmTargets
import System1.AdaText
import System1.MshEdit
import System1.Ps2Keyboard
