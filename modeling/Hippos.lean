import Hippos.Framebuffer.Picture
import Hippos.Framebuffer.Wrap
import Hippos.I386.Scroll
import Hippos.Io.Serial
import Hippos.Cpu.Apic
import Hippos.Cpu.Detect
import Hippos.Cpu.Exception
import Hippos.Kernel.Main
import Hippos.Log.Klog
import Hippos.Libc.Block
import Hippos.Libc.Marks
import Hippos.Libc.Stdlib
import Hippos.Libc.String
import Hippos.Mem.Boot
import Hippos.Mem.Bounds
import Hippos.Mem.Hull
